import Wg14Signals.DecisionCache
import Wg14Signals.Proofs.WinClaims
import Wg14Signals.Proofs.WinInfos

namespace Wg14Signals
open Lib

/-- The exception being dispatched. -/
def WinCall.ptr : WinCall → Option Addr
  | .sigguarded _ _ => none
  | .dispatch x _ => some x.ptr

/-- Nothing has been done about the dispatch. -/
structure CacheLog.Untouched (l : CacheLog) (a : Addr) : Prop where
  unpassed : a ∉ l.passes
  undecided : a ∉ l.decided.map Prod.fst
  unclaimed : a ∉ l.claims

/-- What has been done about a dispatch goes with how far it has come. -/
def CacheLog.Fits (w : WinPlatform) (l : CacheLog) (x : Exception) : WinPc → Prop
  | .filters _ => l.Untouched x.ptr
  | .asking _ _ => l.Untouched x.ptr
  | .unhandled => l.Untouched x.ptr
  | .deciding _ _ _ _ => x.ptr ∉ l.decided.map Prod.fst ∧ x.ptr ∉ l.claims ∧
      signalFromWin32ExceptionCode w x.record.code ≠ 0
  | .continuing => True
  | .terminated => True

/-- Whose entry the cache holds. -/
inductive CacheEntry (l : CacheLog) : Prop where
  /-- That of no exception. -/
  | vacant (hz : l.state.lastRecord.code = 0)
      (hu : ∀ x rest, l.state.calls = .dispatch x .continuing :: rest → l.Untouched x.ptr)
  /-- That of the exception whose continue handler comes next. -/
  | own (x : Exception) (rest : List WinCall)
      (hc : l.state.calls = .dispatch x .continuing :: rest) (hm : l.state.cached x = true)
      (hd : (x.ptr, l.state.lastResult) ∈ l.decided)
  | gone (x : Exception) (rest : List WinCall)
      (hc : l.state.calls = .dispatch x .terminated :: rest)

structure CacheLog.Sound (l : CacheLog) : Prop where
  once : l.passes.Nodup
  spared : ∀ a ∈ l.claims, a ∉ l.passes
  single : (l.decided.map Prod.fst).Nodup
  own : ∀ r ∈ l.returned, r ∈ l.decided

/-- The cache is in order. -/
structure CacheKept (w : WinPlatform) (l : CacheLog) : Prop where
  allotted : Allotted l.state.nextException (l.state.calls.filterMap WinCall.ptr)
  new : ∀ a, l.state.nextException ≤ a → l.Untouched a
  coded : ∀ x pc, .dispatch x pc ∈ l.state.calls → x.record.code ≠ 0
  fits : ∀ x pc, .dispatch x pc ∈ l.state.calls → l.Fits w x pc
  /-- A dispatch is only ever interrupted inside a decider. -/
  below : ∀ c ∈ l.state.calls.tail, c.runsUserCode = true
  entry : CacheEntry l
  sound : l.Sound

/-- What has been done in between is about this dispatch. -/
structure CacheLog.Adds (l l' : CacheLog) (a : Addr) : Prop where
  passes : ∀ b ∈ l'.passes, b = a ∨ b ∈ l.passes
  decided : ∀ b ∈ l'.decided.map Prod.fst, b = a ∨ b ∈ l.decided.map Prod.fst
  claims : ∀ b ∈ l'.claims, b = a ∨ b ∈ l.claims

/-- The log once the pass has ended. -/
def CacheLog.ended (l : CacheLog) (x : Exception) (hook : WinHook) (result : Disposition)
    (passes : List Addr) (s' : WinState) : CacheLog where
  state := s'
  passes := passes
  decided := (x.ptr, result) :: l.decided
  returned :=
    if hook = .continueHandler then (x.ptr, result) :: l.returned else l.returned

section

variable {w : WinPlatform} {l l' : CacheLog} {a b : Addr} {x : Exception} {pc q : WinPc}
variable {base rest : List WinCall} {s s' u : WinState} {act : WinAction} {hook : WinHook}

theorem CacheLog.Adds.untouched (h : l.Adds l' a) (hb : b ≠ a) (hu : l.Untouched b) :
    l'.Untouched b where
  unpassed hm := (h.passes b hm).elim hb hu.unpassed
  undecided hm := (h.decided b hm).elim hb hu.undecided
  unclaimed hm := (h.claims b hm).elim hb hu.unclaimed

theorem CacheLog.Adds.fits (h : l.Adds l' a) (hx : x.ptr ≠ a) (hf : l.Fits w x pc) :
    l'.Fits w x pc := by
  cases pc with
  | filters | asking | unhandled => exact h.untouched hx hf
  | deciding =>
    obtain ⟨hd, hc, hs⟩ := hf
    exact ⟨fun hm => (h.decided _ hm).elim hx hd, fun hm => (h.claims _ hm).elim hx hc, hs⟩
  | continuing | terminated => trivial

/-- Nothing has been done that counts. -/
theorem adds_nothing (hp : l'.passes = l.passes) (hd : l'.decided = l.decided)
    (hc : l'.claims = l.claims) : l.Adds l' a where
  passes b hb := .inr (hp ▸ hb)
  decided b hb := .inr (hd ▸ hb)
  claims b hb := .inr (hc ▸ hb)

theorem CacheLog.Sound.same (h : l.Sound) (hp : l'.passes = l.passes)
    (hd : l'.decided = l.decided) (hc : l'.claims = l.claims) (hr : l'.returned = l.returned) :
    l'.Sound where
  once := hp ▸ h.once
  spared := hp ▸ hc ▸ h.spared
  single := hd ▸ h.single
  own := hd ▸ hr ▸ h.own

theorem userCode_top {c : WinCall} (hu : s.userCode = true) (hc : s.calls = c :: rest) :
    c.runsUserCode = true := by
  unfold WinState.userCode at hu
  rw [hc] at hu
  exact hu

/-- While the user's code runs, the cache is of nobody. -/
theorem CacheKept.vacant_user (hi : CacheKept w l) (hu : l.state.userCode = true) :
    l.state.lastRecord.code = 0 := by
  cases hi.entry with
  | vacant hz => exact hz
  | own x rest hc => cases userCode_top hu hc
  | gone x rest hc => cases userCode_top hu hc

theorem CacheKept.vacant (hi : CacheKept w l) (hc : l.state.calls = .dispatch x pc :: rest)
    (hcont : pc ≠ .continuing) (hterm : pc ≠ .terminated) : l.state.lastRecord.code = 0 := by
  cases hi.entry with
  | vacant hz => exact hz
  | own y rest' hc' =>
    obtain ⟨h, -⟩ := List.cons.inj (hc.symm.trans hc')
    exact absurd (WinCall.dispatch.inj h).2 hcont
  | gone y rest' hc' =>
    obtain ⟨h, -⟩ := List.cons.inj (hc.symm.trans hc')
    exact absurd (WinCall.dispatch.inj h).2 hterm

theorem vacant_entry (hz : l.state.lastRecord.code = 0) (hu : l.state.userCode = true) :
    CacheEntry l :=
  .vacant hz fun _ _ hc => by cases userCode_top hu hc

/-- Where no dispatch is innermost, user code is running. -/
theorem below_user (h : ∀ c ∈ s.calls, c.runsUserCode = true) : s.userCode = true := by
  unfold WinState.userCode
  cases hc : s.calls with
  | nil => rfl
  | cons c rest => exact h c (hc ▸ List.mem_cons_self)

theorem CacheKept.top (hi : CacheKept w l) (hc : l.state.calls = .dispatch x pc :: rest) :
    x.record.code ≠ 0 ∧ l.Fits w x pc ∧ x.ptr < l.state.nextException ∧
      x.ptr ∉ rest.filterMap WinCall.ptr := by
  have hm : WinCall.dispatch x pc ∈ l.state.calls := hc ▸ List.mem_cons_self
  have ha := hi.allotted
  rw [hc, List.filterMap_cons_some (rfl : (WinCall.dispatch x pc).ptr = some x.ptr)] at ha
  exact ⟨hi.coded x pc hm, hi.fits x pc hm, ha.old _ List.mem_cons_self,
    (List.nodup_cons.mp ha.distinct).1⟩

/-- The innermost dispatch goes on, or comes to its end, with some of the calls outside of it. -/
theorem CacheKept.acts (hi : CacheKept w l) (hc : l.state.calls = .dispatch x pc :: rest)
    (top : Option WinCall) (hc' : l'.state.calls = top.toList ++ base) (hb : base <:+ rest)
    (hn : l'.state.nextException = l.state.nextException) (hadd : l.Adds l' x.ptr)
    (htop : ∀ y q, top = some (.dispatch y q) → y = x ∧ l'.Fits w x q) (he : CacheEntry l')
    (hs : l'.Sound) : CacheKept w l' := by
  obtain ⟨hcode, -, hold, hptr⟩ := hi.top hc
  have hbase : ∀ c ∈ base, c ∈ l.state.calls := fun c h =>
    hc ▸ List.mem_cons_of_mem _ (hb.subset h)
  have hcase : ∀ y q, .dispatch y q ∈ l'.state.calls →
      y = x ∧ l'.Fits w x q ∨ .dispatch y q ∈ base := by
    intro y q hm
    rw [hc', List.mem_append, Option.mem_toList] at hm
    exact hm.imp (htop y q) id
  refine ⟨?_, ?_, ?_, ?_, ?_, he, hs⟩
  · have ha := hi.allotted
    rw [hc, List.filterMap_cons_some (rfl : (WinCall.dispatch x pc).ptr = some x.ptr)] at ha
    rw [hn, hc', List.filterMap_append]
    refine ha.sublist ((List.Sublist.append ?_ (hb.sublist.filterMap _)) :
      List.Sublist _ ([x.ptr] ++ _))
    cases top with
    | none => exact List.nil_sublist _
    | some c =>
      cases c with
      | sigguarded => exact List.nil_sublist _
      | dispatch y q =>
        obtain ⟨rfl, -⟩ := htop y q rfl
        exact List.Sublist.refl _
  · intro a ha
    rw [hn] at ha
    exact hadd.untouched (Nat.ne_of_gt (Nat.lt_of_lt_of_le hold ha)) (hi.new a ha)
  · intro y q hm
    rcases hcase y q hm with ⟨rfl, -⟩ | hm
    · exact hcode
    · exact hi.coded y q (hbase _ hm)
  · intro y q hm
    rcases hcase y q hm with ⟨rfl, hf⟩ | hm
    · exact hf
    · refine hadd.fits (fun heq => hptr ?_) (hi.fits y q (hbase _ hm))
      exact List.mem_filterMap.mpr ⟨_, hb.subset hm, congrArg some heq⟩
  · intro c hm
    refine hi.below c ?_
    rw [hc, List.tail_cons]
    refine hb.subset ?_
    rw [hc'] at hm
    cases top with
    | none => exact List.mem_of_mem_tail hm
    | some d => exact hm

/-- It goes on. -/
theorem CacheKept.goes (hi : CacheKept w l) (hc : l.state.calls = .dispatch x pc :: rest)
    (hc' : l'.state.calls = .dispatch x q :: rest)
    (hn : l'.state.nextException = l.state.nextException) (hadd : l.Adds l' x.ptr)
    (hf : l'.Fits w x q) (he : CacheEntry l') (hs : l'.Sound) : CacheKept w l' := by
  refine hi.acts hc (some (.dispatch x q)) hc' List.suffix_rfl hn hadd ?_ he hs
  intro y p heq
  obtain ⟨rfl, rfl⟩ := WinCall.dispatch.inj (Option.some.inj heq)
  exact ⟨rfl, hf⟩

/-- It goes on, and nothing has been done about it yet. -/
theorem CacheKept.turns (hi : CacheKept w l) (hc : l.state.calls = .dispatch x pc :: rest)
    (hz : l.state.lastRecord.code = 0) (hu : l.Untouched x.ptr)
    (hc' : l'.state.calls = .dispatch x q :: rest)
    (hn : l'.state.nextException = l.state.nextException)
    (hr : l'.state.lastRecord = l.state.lastRecord) (hp : l'.passes = l.passes)
    (hd : l'.decided = l.decided) (ht : l'.claims = l.claims) (hret : l'.returned = l.returned)
    (hf : l'.Untouched x.ptr → l'.Fits w x q) : CacheKept w l' := by
  have hu' : l'.Untouched x.ptr := ⟨hp ▸ hu.unpassed, hd ▸ hu.undecided, ht ▸ hu.unclaimed⟩
  refine hi.goes hc hc' hn (adds_nothing hp hd ht) (hf hu') ?_ (hi.sound.same hp hd ht hret)
  refine .vacant (hr ▸ hz) fun y below hy => ?_
  obtain ⟨h, -⟩ := List.cons.inj (hc'.symm.trans hy)
  obtain ⟨rfl, -⟩ := WinCall.dispatch.inj h
  exact hu'

/-- It is gone, and so are calls outside of it. -/
theorem CacheKept.falls (hi : CacheKept w l) (hc : l.state.calls = .dispatch x pc :: rest)
    (top : Option Addr)
    (hc' : l'.state.calls = (top.map fun g => .sigguarded g true).toList ++ base)
    (hb : base <:+ rest) (hn : l'.state.nextException = l.state.nextException)
    (hadd : l.Adds l' x.ptr) (hz : l'.state.lastRecord.code = 0) (hs : l'.Sound) :
    CacheKept w l' := by
  refine hi.acts hc (top.map fun g => .sigguarded g true) hc' hb hn hadd ?_ ?_ hs
  · intro y q heq
    obtain ⟨g, -, h⟩ := Option.map_eq_some_iff.mp heq
    cases h
  · refine vacant_entry hz (below_user fun c hm => ?_)
    rw [hc', List.mem_append, Option.mem_toList] at hm
    rcases hm with hm | hm
    · obtain ⟨g, -, rfl⟩ := Option.map_eq_some_iff.mp hm
      rfl
    · refine hi.below c ?_
      rw [hc, List.tail_cons]
      exact hb.subset hm

/-- Nothing happens to the dispatches. -/
theorem CacheKept.same (hi : CacheKept w l) (hc : l'.state.calls = l.state.calls)
    (hn : l'.state.nextException = l.state.nextException)
    (hr : l'.state.lastRecord = l.state.lastRecord) (hlast : l'.state.lastResult = l.state.lastResult)
    (hp : l'.passes = l.passes) (hd : l'.decided = l.decided) (ht : l'.claims = l.claims)
    (hret : l'.returned = l.returned) : CacheKept w l' where
  allotted := hc ▸ hn ▸ hi.allotted
  new a ha :=
    have h := hi.new a (hn ▸ ha)
    ⟨hp ▸ h.unpassed, hd ▸ h.undecided, ht ▸ h.unclaimed⟩
  coded := hc ▸ hi.coded
  fits y q hm := by
    -- what has been done about an address is what has been done about it
    have hadd : l.Adds l' (y.ptr + 1) := adds_nothing hp hd ht
    exact hadd.fits (Nat.ne_of_lt (Nat.lt_succ_self _)) (hi.fits y q (hc ▸ hm))
  below := hc ▸ hi.below
  entry := by
    cases hi.entry with
    | vacant hz hu =>
      refine .vacant (hr ▸ hz) fun x rest hx => ?_
      have h := hu x rest (hc ▸ hx)
      exact ⟨hp ▸ h.unpassed, hd ▸ h.undecided, ht ▸ h.unclaimed⟩
    | own x rest hx hm hown =>
      refine .own x rest (hc ▸ hx) ?_ (hd ▸ hlast ▸ hown)
      unfold WinState.cached at hm ⊢
      rw [hr, hm]
    | gone x rest hx => exact .gone x rest (hc ▸ hx)
  sound := hi.sound.same hp hd ht hret

/-- A call comes on top of the user's code. -/
theorem CacheKept.push (hi : CacheKept w l) (hu : l.state.userCode = true) {c : WinCall}
    (hc : l'.state.calls = c :: l.state.calls)
    (hn : ∃ k, l'.state.nextException = l.state.nextException + k)
    (hr : l'.state.lastRecord = l.state.lastRecord)
    (hp : l'.passes = l.passes) (hd : l'.decided = l.decided) (ht : l'.claims = l.claims)
    (hret : l'.returned = l.returned)
    (hx : ∀ x pc, c = .dispatch x pc → x.ptr = l.state.nextException ∧
      l'.state.nextException = l.state.nextException + 1 ∧ x.record.code ≠ 0 ∧
      ∃ todo, pc = .filters todo) : CacheKept w l' := by
  obtain ⟨k, hn⟩ := hn
  have hadd : ∀ a, l.Adds l' a := fun a => adds_nothing hp hd ht
  have huntouched : ∀ a, l.Untouched a → l'.Untouched a := fun a h =>
    ⟨hp ▸ h.unpassed, hd ▸ h.undecided, ht ▸ h.unclaimed⟩
  have hlater : ∀ a, l'.state.nextException ≤ a → l.state.nextException ≤ a := fun a ha =>
    Nat.le_trans (hn ▸ Nat.le_add_right _ k) ha
  have hcases : ∀ y q, .dispatch y q ∈ l'.state.calls →
      c = .dispatch y q ∨ .dispatch y q ∈ l.state.calls := by
    intro y q hm
    rw [hc] at hm
    exact (List.mem_cons.mp hm).imp Eq.symm id
  refine ⟨?_, ?_, ?_, ?_, ?_, ?_, hi.sound.same hp hd ht hret⟩
  · rw [hc]
    cases c with
    | sigguarded =>
      exact ⟨hi.allotted.distinct, fun a ha =>
        Nat.lt_of_lt_of_le (hi.allotted.old a ha) (hn ▸ Nat.le_add_right _ k)⟩
    | dispatch x pc =>
      obtain ⟨hptr, hone, -, -⟩ := hx x pc rfl
      rw [List.filterMap_cons_some (rfl : (WinCall.dispatch x pc).ptr = some x.ptr), hptr, hone]
      exact hi.allotted.push
  · exact fun a ha => huntouched a (hi.new a (hlater a ha))
  · intro y q hm
    rcases hcases y q hm with h | hm
    · exact (hx y q h).2.2.1
    · exact hi.coded y q hm
  · intro y q hm
    rcases hcases y q hm with h | hm
    · obtain ⟨hptr, -, -, todo, rfl⟩ := hx y q h
      exact huntouched _ (hi.new _ (Nat.le_of_eq hptr.symm))
    · exact (hadd (y.ptr + 1)).fits (Nat.ne_of_lt (Nat.lt_succ_self _)) (hi.fits y q hm)
  · rw [hc, List.tail_cons]
    intro d hd
    cases hcalls : l.state.calls with
    | nil => rw [hcalls] at hd; cases hd
    | cons e rest =>
      rw [hcalls] at hd
      rcases List.mem_cons.mp hd with rfl | hd
      · exact userCode_top hu hcalls
      · exact hi.below d (hcalls ▸ hd)
  · refine .vacant (hr ▸ hi.vacant_user hu) fun y rest hy => ?_
    obtain ⟨h, -⟩ := List.cons.inj (hc.symm.trans hy)
    obtain ⟨-, -, -, todo, hpc⟩ := hx y _ h
    cases hpc

theorem CacheKept.returns (hi : CacheKept w l) {guard : Addr} {recovering : Bool}
    (hc : l.state.calls = .sigguarded guard recovering :: rest) (hc' : l'.state.calls = rest)
    (hn : l'.state.nextException = l.state.nextException)
    (hr : l'.state.lastRecord = l.state.lastRecord)
    (hp : l'.passes = l.passes) (hd : l'.decided = l.decided) (ht : l'.claims = l.claims)
    (hret : l'.returned = l.returned) : CacheKept w l' := by
  have hu : l.state.userCode = true := by
    unfold WinState.userCode
    rw [hc]
    rfl
  have hbelow : ∀ c ∈ rest, c.runsUserCode = true := by
    have h := hi.below
    rwa [hc, List.tail_cons] at h
  have hmem : ∀ c ∈ l'.state.calls, c ∈ l.state.calls := fun c hm =>
    hc ▸ List.mem_cons_of_mem _ (hc' ▸ hm)
  refine ⟨?_, ?_, fun y q hm => hi.coded y q (hmem _ hm), ?_, ?_, ?_,
    hi.sound.same hp hd ht hret⟩
  · have ha := hi.allotted
    rw [hc, List.filterMap_cons_none rfl] at ha
    rw [hn, hc']
    exact ha
  · intro a ha
    have h := hi.new a (hn ▸ ha)
    exact ⟨hp ▸ h.unpassed, hd ▸ h.undecided, ht ▸ h.unclaimed⟩
  · intro y q hm
    have hadd : l.Adds l' (y.ptr + 1) := adds_nothing hp hd ht
    exact hadd.fits (Nat.ne_of_lt (Nat.lt_succ_self _)) (hi.fits y q (hmem _ hm))
  · exact fun c hm => hbelow c (hc' ▸ List.mem_of_mem_tail hm)
  · exact vacant_entry (hr ▸ hi.vacant_user hu) (below_user fun c hm => hbelow c (hc' ▸ hm))

/-- A step that neither begins a pass nor ends one, nor decides anything else. -/
theorem log_nothing (hb : l.state.passBegins act = none) (he : l.state.passEnds s' act = none)
    (hf : l.state.filterClaims act = none) (hr : l.state.reuses act = none) :
    l.log w act s' = { l with state := s' } := by
  simp only [CacheLog.log, hb, he, hf, hr]
  rfl

/-- A step that ends the pass. -/
theorem log_ends (he : l.state.passEnds s' act = some (x, hook))
    (hf : l.state.filterClaims act = none) (hr : l.state.reuses act = none) :
    l.log w act s' = l.ended x hook (x.passResult w s')
      ((l.state.passBegins act).toList ++ l.passes) s' := by
  simp only [CacheLog.log, he, hf, hr]
  cases hook <;> rfl

theorem resumes_rest {t : WinState} (h : Resumes s x rest t) : t.calls = rest ∧
    t.nextException = s.nextException ∧ t.lastRecord = s.lastRecord ∧
    t.lastResult = s.lastResult ∧
    t.trace.filterMap WinEvent.frameClaim = s.trace.filterMap WinEvent.frameClaim := by
  cases h with
  | fault => exact ⟨rfl, rfl, rfl, rfl, rfl⟩
  | raise => exact ⟨rfl, rfl, rfl, rfl, rfl⟩

theorem passReturns_rest {result : Disposition} {t : WinState}
    (h : PassReturns s x rest hook result t) : t.nextException = s.nextException ∧
    t.lastResult = s.lastResult ∧
    t.trace.filterMap WinEvent.frameClaim = s.trace.filterMap WinEvent.frameClaim := by
  cases h with
  | continues => exact ⟨rfl, rfl, rfl⟩
  | terminates => exact ⟨rfl, rfl, rfl⟩
  | resumes _ _ hr =>
    obtain ⟨-, hn, -, hl, ht⟩ := resumes_rest hr
    exact ⟨hn, hl, ht⟩

/-- When the pass has returned, the thread is not inside of it. -/
theorem passReturns_out {result : Disposition} {t : WinState}
    (hx : x.ptr ∉ rest.filterMap WinCall.ptr) (h : PassReturns s x rest hook result t) :
    t.inPass x = false := by
  cases h with
  | continues => rfl
  | terminates => rfl
  | resumes _ _ hr =>
    obtain ⟨hc, -⟩ := resumes_rest hr
    unfold WinState.inPass
    rw [hc]
    split
    · rename_i y hook item current rsi below
      refine beq_eq_false_iff_ne.mpr fun heq => hx ?_
      exact List.mem_filterMap.mpr ⟨_, List.mem_cons_self, congrArg some heq⟩
    · rfl

/-- The pass ends, with this decision. -/
theorem CacheKept.passed {result : Disposition} {passes : List Addr} (hi : CacheKept w l)
    (hc : l.state.calls = .dispatch x pc :: rest)
    (hp : passes = l.passes ∨ passes = x.ptr :: l.passes ∧ x.ptr ∉ l.passes)
    (hnd : x.ptr ∉ l.decided.map Prod.fst) (hnc : x.ptr ∉ l.claims)
    (hr : PassReturns u x rest hook result s')
    (hn : u.nextException = l.state.nextException)
    (ht : u.trace.filterMap WinEvent.frameClaim = l.claims)
    (hu : result = .continueExecution → u.cached x = true ∧ u.lastResult = result) :
    CacheKept w (l.ended x hook result passes s') := by
  obtain ⟨hn', hlast, ht'⟩ := passReturns_rest hr
  have hclaims : (l.ended x hook result passes s').claims = l.claims := ht'.trans ht
  have hadd : l.Adds (l.ended x hook result passes s') x.ptr := by
    refine ⟨fun b hb => ?_, fun b hb => ?_, fun b hb => .inr (hclaims ▸ hb)⟩
    · rcases hp with rfl | ⟨rfl, -⟩
      · exact .inr hb
      · exact List.mem_cons.mp hb
    · exact List.mem_cons.mp hb
  have hsound : (l.ended x hook result passes s').Sound := by
    refine ⟨?_, ?_, List.nodup_cons.mpr ⟨hnd, hi.sound.single⟩, ?_⟩
    · rcases hp with rfl | ⟨rfl, hnp⟩
      · exact hi.sound.once
      · exact List.nodup_cons.mpr ⟨hnp, hi.sound.once⟩
    · intro a ha hm
      rw [hclaims] at ha
      rcases hp with rfl | ⟨rfl, -⟩
      · exact hi.sound.spared a ha hm
      · rcases List.mem_cons.mp hm with rfl | hm
        · exact hnc ha
        · exact hi.sound.spared a ha hm
    · intro r hm
      simp only [CacheLog.ended] at hm
      split at hm
      · rcases List.mem_cons.mp hm with rfl | hm
        · exact List.mem_cons_self
        · exact List.mem_cons_of_mem _ (hi.sound.own r hm)
      · exact List.mem_cons_of_mem _ (hi.sound.own r hm)
  cases hr with
  | continues =>
    obtain ⟨hcached, hlast⟩ := hu rfl
    refine hi.goes hc (q := .continuing) rfl hn hadd trivial (.own x rest rfl hcached ?_) hsound
    exact hlast ▸ List.mem_cons_self
  | terminates =>
    exact hi.goes hc (q := .terminated) rfl hn hadd trivial (.gone x rest rfl) hsound
  | resumes result s' hres =>
    obtain ⟨hrest, -, hid, -⟩ := resumes_rest hres
    exact hi.falls hc none hrest List.suffix_rfl (hn'.trans hn) hadd
      (congrArg RecordId.code hid) hsound

theorem hooked_begins {last : RecordId} (hh : Hooked s x rest hook last) (t : WinState) :
    s.passBegins .advance = some x.ptr ∧ s.reuses .advance = none ∧
      s.passEnds t .advance = if t.inPass x then none else some (x, hook) := by
  cases hh with
  | filter hc =>
    simp only [WinState.passBegins, WinState.reuses, WinState.passEnds, hc, and_self]
  | handler hc hm =>
    have hm : s.cached x = false := hm
    simp [WinState.passBegins, WinState.reuses, WinState.passEnds, hc, hm]

/-- A hook that is to run the pass has nothing to go by. -/
theorem CacheKept.hooked {last : RecordId} (hi : CacheKept w l)
    (hh : Hooked l.state x rest hook last) : ∃ pc, l.state.calls = .dispatch x pc :: rest ∧
      l.Untouched x.ptr ∧ last.code = 0 := by
  cases hh with
  | filter hc => exact ⟨_, hc, (hi.top hc).2.1, rfl⟩
  | handler hc hm =>
    refine ⟨_, hc, ?_⟩
    cases hi.entry with
    | vacant hz hu => exact ⟨hu x rest hc, hz⟩
    | own y rest' hc' hm' =>
      obtain ⟨h, -⟩ := List.cons.inj (hc.symm.trans hc')
      obtain ⟨rfl, -⟩ := WinCall.dispatch.inj h
      cases hm.symm.trans hm'
    | gone y rest' hc' =>
      obtain ⟨h, -⟩ := List.cons.inj (hc.symm.trans hc')
      cases h

/-- The pass over no deciders, or for an exception that is no signal. -/
theorem CacheKept.passes {last : RecordId} {result : Disposition} (hi : CacheKept w l)
    (hh : Hooked l.state x rest hook last) (hr : PassReturns u x rest hook result s')
    (hn : u.nextException = l.state.nextException)
    (ht : u.trace.filterMap WinEvent.frameClaim = l.claims)
    (hu : result = .continueExecution → u.cached x = true ∧ u.lastResult = result)
    (hres : x.passResult w s' = result) : CacheKept w (l.log w .advance s') := by
  obtain ⟨pc, hc, huntouched, -⟩ := hi.hooked hh
  obtain ⟨hb, hreuse, hends⟩ := hooked_begins hh s'
  rw [passReturns_out (hi.top hc).2.2.2 hr] at hends
  have hlog := log_ends (w := w) hends rfl hreuse
  rw [hb, hres] at hlog
  rw [hlog]
  exact hi.passed hc (.inr ⟨rfl, huntouched.unpassed⟩) huntouched.undecided huntouched.unclaimed
    hr hn ht hu

/-- Where the exception is no signal. -/
theorem pass_unsupported {last : RecordId} (hh : Hooked s x rest hook last)
    (hx : signalFromWin32ExceptionCode w x.record.code = 0)
    (h : winStep w s .advance = .ok s') :
    PassReturns (s.setLast last s.lastResult) x rest hook .continueSearch s' := by
  cases hh with
  | filter hc =>
    simp only [winStep, hc, winSection, win32GlobalDeciderPass, hx, if_true] at h
    exact passReturns_ok h
  | handler hc hm =>
    simp only [winStep, hc, winSection, win32VectoredContinueHandler, hm, Bool.false_eq_true,
      if_false, win32GlobalDeciderPass, hx, if_true] at h
    exact passReturns_ok h

/-- Once a global decider has been asked, the pass ends with what is recorded. -/
theorem CacheKept.answered {d : Decision} {item current rsi : Addr} {result : Disposition}
    (hi : CacheKept w l) (hc : l.state.calls = .dispatch x (.deciding hook item current rsi) :: rest)
    (hd : d = .nextDecider ∨ (l.state.tss.bind WinTss.front).isSome = false)
    (hr : PassReturns u x rest hook result s')
    (hn : u.nextException = l.state.nextException)
    (ht : u.trace.filterMap WinEvent.frameClaim = l.claims)
    (hu : u.cached x = true) (hlast : u.lastResult = result) :
    CacheKept w (l.log w (.decide d) s') := by
  obtain ⟨-, ⟨hnd, hnc, hsig⟩, -, hptr⟩ := hi.top hc
  have hclaims : l.state.filterClaims (.decide d) = none := by
    cases d <;> simp [WinState.filterClaims, hc]
  have hends : l.state.passEnds s' (.decide d) = some (x, hook) := by
    simp only [WinState.passEnds, hc, passReturns_out hptr hr]
    rcases hd with rfl | hf
    · rfl
    · simp [hf]
  have hres : x.passResult w s' = result := by
    unfold Exception.passResult
    rw [if_neg hsig, (passReturns_rest hr).2.1, hlast]
  have hlog := log_ends (w := w) hends hclaims rfl
  rw [hres] at hlog
  rw [hlog]
  exact hi.passed hc (.inl rfl) hnd hnc hr hn ht fun _ => ⟨hu, hlast⟩

theorem exceptionCode_ne (w : WinPlatform) (signo : Signo) :
    win32ExceptionCodeFromSignal w signo ≠ 0 := by
  unfold win32ExceptionCodeFromSignal
  split_ifs
  all_goals try decide
  intro h
  have hbit := congrArg (fun v => v.getLsbD 30) h
  simp [userRaiseBase] at hbit

theorem log_calls (ha : act.calls = true) : l.log w act s' = { l with state := s' } := by
  cases act with
  | sigguarded | raise => exact log_nothing rfl rfl rfl rfl
  | fault | elsewhere | advance | debugged | decide | write | ret => cases ha

theorem log_filters {todo : List Addr} (hc : l.state.calls = .dispatch x (.filters todo) :: rest) :
    l.log w .advance s' = { l with state := s' } := by
  refine log_nothing ?_ ?_ rfl ?_
  · simp only [WinState.passBegins, hc]
  · simp only [WinState.passEnds, hc]
  · simp only [WinState.reuses, hc]

theorem log_asking {d : Decision} {guard : Addr} {todo : List Addr}
    (hc : l.state.calls = .dispatch x (.asking guard todo) :: rest) (hd : d ≠ .resumeExecution) :
    l.log w (.decide d) s' = { l with state := s' } := by
  refine log_nothing rfl ?_ ?_ rfl
  · simp only [WinState.passEnds, hc]
  · cases d with
    | nextDecider | callRecovery => rfl
    | resumeExecution => exact absurd rfl hd

theorem silent_claims {e : WinEvent} (he : e.silent = true) : e.frameClaim = none := by
  cases e with
  | claimed => cases he
  | asked | recovered | raised | resumed | returned | terminated => rfl

/-- The decider of a guard claims the exception, which goes on. -/
theorem CacheKept.claimed {guard : Addr} {todo : List Addr} (hi : CacheKept w l)
    (hc : l.state.calls = .dispatch x (.asking guard todo) :: rest)
    (hc' : s'.calls = .dispatch x .continuing :: rest)
    (hn : s'.nextException = l.state.nextException) (hr : s'.lastRecord = .of x.record)
    (hlast : s'.lastResult = .continueExecution)
    (ht : s'.trace.filterMap WinEvent.frameClaim = x.ptr :: l.claims) :
    CacheKept w (l.log w (.decide .resumeExecution) s') := by
  obtain ⟨hnp, hnd, hnc⟩ := (hi.top hc).2.1
  have hlog : l.log w (.decide .resumeExecution) s' =
      { l with state := s', decided := (x.ptr, .continueExecution) :: l.decided } := by
    simp only [CacheLog.log, WinState.passBegins, WinState.passEnds, WinState.filterClaims,
      WinState.reuses, hc]
    rfl
  rw [hlog]
  refine hi.goes hc hc' hn ⟨fun b hb => .inr hb, fun b hb => List.mem_cons.mp hb, fun b hb => ?_⟩
    trivial (.own x rest hc' ?_ ?_) ⟨hi.sound.once, ?_, List.nodup_cons.mpr ⟨hnd, hi.sound.single⟩,
      fun r hm => List.mem_cons_of_mem _ (hi.sound.own r hm)⟩
  · exact List.mem_cons.mp (ht ▸ hb)
  · unfold WinState.cached
    rw [hr]
    exact matches_self x.record
  · exact hlast ▸ List.mem_cons_self
  · intro a ha hm
    change a ∈ s'.trace.filterMap WinEvent.frameClaim at ha
    rw [ht] at ha
    rcases List.mem_cons.mp ha with rfl | ha
    · exact hnp hm
    · exact hi.sound.spared a ha hm

/-- The continue handler goes by its entry, which is its own. -/
theorem CacheKept.goesOn (hi : CacheKept w l)
    (hc : l.state.calls = .dispatch x .continuing :: rest) (hm : l.state.cached x = true)
    (hr : Resumes (l.state.setLast {} l.state.lastResult) x rest s') :
    CacheKept w (l.log w .advance s') := by
  have hown : (x.ptr, l.state.lastResult) ∈ l.decided := by
    cases hi.entry with
    | vacant hz =>
      unfold WinState.cached win32ExceptionRecordMatches at hm
      simp only [Bool.and_eq_true, beq_iff_eq] at hm
      exact absurd (hm.1.1.1.symm.trans hz) (hi.top hc).1
    | own y rest' hc' _ hd =>
      obtain ⟨h, -⟩ := List.cons.inj (hc.symm.trans hc')
      obtain ⟨rfl, -⟩ := WinCall.dispatch.inj h
      exact hd
    | gone y rest' hc' =>
      obtain ⟨h, -⟩ := List.cons.inj (hc.symm.trans hc')
      cases h
  have hlog : l.log w .advance s' =
      { l with state := s', returned := (x.ptr, l.state.lastResult) :: l.returned } := by
    simp only [CacheLog.log, WinState.passBegins, WinState.passEnds, WinState.filterClaims,
      WinState.reuses, hc, hm]
    rfl
  obtain ⟨hrest, hn, hid, -, ht⟩ := resumes_rest hr
  rw [hlog]
  refine hi.falls hc none hrest List.suffix_rfl hn (adds_nothing rfl rfl ht)
    (congrArg RecordId.code hid) ⟨hi.sound.once, ?_, hi.sound.single, fun r hret => ?_⟩
  · intro a ha
    change a ∈ s'.trace.filterMap WinEvent.frameClaim at ha
    rw [ht] at ha
    exact hi.sound.spared a ha
  · rcases List.mem_cons.mp hret with rfl | hret
    · exact hown
    · exact hi.sound.own r hret

/-- The first global decider is asked. -/
theorem CacheKept.askedFirst {last : RecordId} {item current rsi : Addr} (hi : CacheKept w l)
    (hh : Hooked l.state x rest hook last)
    (hsig : signalFromWin32ExceptionCode w x.record.code ≠ 0)
    (hc' : s'.calls = .dispatch x (.deciding hook item current rsi) :: rest)
    (hn : s'.nextException = l.state.nextException) (hr : s'.lastRecord = last)
    (ht : s'.trace.filterMap WinEvent.frameClaim = l.claims) :
    CacheKept w (l.log w .advance s') := by
  obtain ⟨pc, hc, ⟨hnp, hnd, hnc⟩, hz⟩ := hi.hooked hh
  obtain ⟨hb, hreuse, hends⟩ := hooked_begins hh s'
  have hin : s'.inPass x = true := by
    unfold WinState.inPass
    rw [hc']
    exact beq_self_eq_true x.ptr
  rw [hin, if_pos rfl] at hends
  have hlog : l.log w .advance s' = { l with state := s', passes := x.ptr :: l.passes } := by
    simp only [CacheLog.log, hb, hends, hreuse]
    rfl
  rw [hlog]
  have hclaims : CacheLog.claims { l with state := s', passes := x.ptr :: l.passes } =
      l.claims := ht
  refine hi.goes hc hc' hn ⟨fun b hb => List.mem_cons.mp hb, fun b hb => .inr hb,
    fun b hb => .inr (hclaims ▸ hb)⟩ ⟨hnd, hclaims ▸ hnc, hsig⟩ ?_
    ⟨List.nodup_cons.mpr ⟨hnp, hi.sound.once⟩, ?_, hi.sound.single, hi.sound.own⟩
  · refine .vacant (hr ▸ hz) fun y below hy => ?_
    obtain ⟨h, -⟩ := List.cons.inj (hc'.symm.trans hy)
    cases h
  · intro a ha hm
    rw [hclaims] at ha
    rcases List.mem_cons.mp hm with rfl | hm
    · exact hnc ha
    · exact hi.sound.spared a ha hm

theorem CacheKept.lib (hi : CacheKept w l) (hcoded : (CacheAction.lib act).coded = true)
    (h : winStep w l.state act = .ok s') : CacheKept w (l.log w act s') := by
  cases winStep_turns h with
  | elsewhere g =>
    rw [log_nothing rfl rfl rfl rfl]
    exact hi.same rfl rfl rfl rfl rfl rfl rfl rfl
  | quits _ tss e ha he ht hu =>
    rw [log_calls ha]
    refine hi.same rfl rfl rfl rfl rfl rfl ?_ rfl
    exact List.filterMap_cons_none (silent_claims he)
  | guard signals recovery decider value env tss gs ht hu hgs =>
    rw [log_calls rfl]
    exact hi.push hu rfl ⟨0, rfl⟩ rfl rfl rfl rfl rfl (by simp)
  | raise signo info context env tss x r ht hu hs hr hx =>
    rw [log_calls rfl]
    refine hi.push hu rfl ⟨1, rfl⟩ rfl rfl rfl rfl rfl fun y q hy => ?_
    obtain ⟨rfl, rfl⟩ := WinCall.dispatch.inj hy
    refine ⟨by rw [hx], rfl, ?_, _, rfl⟩
    have hcode : x.record.code = win32ExceptionCodeFromSignal w signo := by
      rw [hx]
      unfold deliveredRecord raisedRecord
      split_ifs <;> cases info <;> rfl
    exact hcode ▸ exceptionCode_ne w signo
  | fault record x hu hx =>
    rw [log_nothing rfl rfl rfl rfl]
    refine hi.push hu rfl ⟨1, rfl⟩ rfl rfl rfl rfl rfl fun y q hy => ?_
    obtain ⟨rfl, rfl⟩ := WinCall.dispatch.inj hy
    exact ⟨by rw [hx], rfl, by rw [hx]; exact bne_iff_ne.mp hcoded, _, rfl⟩
  | skip x guard gs todo rest hc =>
    rw [log_filters hc]
    exact hi.turns hc (q := .filters todo) (hi.vacant hc (by simp) (by simp)) (hi.top hc).2.1
      rfl rfl rfl rfl rfl rfl rfl id
  | exhausted x rest hc =>
    rw [log_filters hc]
    exact hi.turns hc (q := .unhandled) (hi.vacant hc (by simp) (by simp)) (hi.top hc).2.1
      rfl rfl rfl rfl rfl rfl rfl id
  | debugged x rest hc =>
    rw [log_nothing rfl rfl rfl rfl]
    exact hi.turns hc (q := .continuing) (hi.vacant hc (by simp) (by simp)) (hi.top hc).2.1
      rfl rfl rfl rfl rfl rfl rfl fun _ => trivial
  | ask x guard gs todo rest tss rsi hc =>
    rw [log_filters hc]
    exact hi.turns hc (q := .asking guard todo) (hi.vacant hc (by simp) (by simp))
      (hi.top hc).2.1 rfl rfl rfl rfl rfl rfl rfl id
  | decline x guard todo rest d hc hd =>
    rw [log_asking hc (by rcases hd with rfl | ⟨rfl, -⟩ <;> decide)]
    exact hi.turns hc (q := .filters todo) (hi.vacant hc (by simp) (by simp)) (hi.top hc).2.1
      rfl rfl rfl rfl rfl rfl rfl id
  | claim x guard todo rest hc => exact hi.claimed hc rfl rfl rfl rfl rfl
  | recover x guard gs todo gone rest tss hgone hc =>
    rw [log_asking hc (by decide)]
    have hnp := (hi.top hc).2.1.unpassed
    refine hi.falls hc (some guard) rfl ((List.suffix_cons _ rest).trans
      (List.suffix_append gone _)) rfl ⟨fun b hb => .inr hb, fun b hb => .inr hb,
        fun b hb => List.mem_cons.mp hb⟩ (hi.vacant hc (by simp) (by simp))
      ⟨hi.sound.once, fun a ha hm => ?_, hi.sound.single, hi.sound.own⟩
    rcases List.mem_cons.mp ha with rfl | ha
    · exact hnp hm
    · exact hi.sound.spared a ha hm
  | unsupported hook x rest last _ hh hx hr =>
    exact hi.passes hh hr rfl rfl (by simp) (if_pos hx)
  | askFirst hook x item current value sa g info last rest hh he hinfo =>
    by_cases hsig : signalFromWin32ExceptionCode w x.record.code = 0
    · exact hi.passes hh (pass_unsupported hh hsig h) rfl rfl (by simp) (if_pos hsig)
    · exact hi.askedFirst hh hsig rfl rfl rfl rfl
  | nobody hook x e g last rest _ hh he hn hr =>
    by_cases hsig : signalFromWin32ExceptionCode w x.record.code = 0
    · exact hi.passes hh (pass_unsupported hh hsig h) rfl rfl (by simp) (if_pos hsig)
    · refine hi.passes hh hr rfl rfl (fun _ => ⟨matches_self x.record, rfl⟩) ?_
      exact (if_neg hsig).trans (passReturns_rest hr).2.1
  | askNext d hook x item current next rsi value g old info rest hc hd =>
    have hends : ∀ t : WinState, t.calls = .dispatch x (.deciding hook item next rsi) :: rest →
        l.state.passEnds t (.decide d) = none := by
      intro t ht
      simp only [WinState.passEnds, WinState.inPass, hc, ht, hd]
      simp
    rw [log_nothing rfl (hends _ rfl) (by rw [hd]; rfl) rfl]
    have hz := hi.vacant hc (by simp) (by simp)
    exact hi.goes hc (q := .deciding hook item next rsi) rfl rfl (adds_nothing rfl rfl rfl)
      (hi.top hc).2.1 (.vacant hz (by simp)) (hi.sound.same rfl rfl rfl rfl)
  | exhaust d hook x item current rsi g rest _ hc hd he hr =>
    exact hi.answered hc (.inl hd) hr rfl rfl (matches_self x.record) rfl
  | jump d hook x y pc item current rsi r g tss k gone rest rest' hd htop he ht hf hgone hc =>
    have hclaims : l.state.filterClaims (.decide d) = none := by
      cases d <;> simp [WinState.filterClaims, htop]
    have hends : ∀ t : WinState, l.state.passEnds t (.decide d) = none := by
      intro t
      simp [WinState.passEnds, htop, hd, ht, hf]
    rw [log_nothing rfl (hends _) hclaims rfl]
    have hbase : rest <:+ rest' := by
      rw [htop] at hc
      cases gone with
      | nil => exact (List.cons.inj hc).2 ▸ List.suffix_rfl
      | cons c gone =>
        rw [(List.cons.inj hc).2]
        exact (List.suffix_cons _ rest).trans (List.suffix_append gone _)
    exact hi.falls htop none rfl hbase rfl (adds_nothing rfl rfl rfl)
      (hi.vacant htop (by simp) (by simp)) (hi.sound.same rfl rfl rfl rfl)
  | settle d hook x item current rsi g rest _ hd hc he hf hr =>
    exact hi.answered hc (.inr (by rw [hf]; rfl)) hr rfl rfl (matches_self x.record) rfl
  | goesOn x rest _ hc hm hr => exact hi.goesOn hc hm hr
  | write info x guard todo gs rest hc =>
    rw [log_nothing rfl rfl rfl rfl]
    exact hi.same rfl rfl rfl rfl rfl rfl rfl rfl
  | writeGlobal info x hook item current rsi old rest hc =>
    rw [log_nothing rfl rfl rfl rfl]
    exact hi.same rfl rfl rfl rfl rfl rfl rfl rfl
  | ret value guard recovering rest hc =>
    rw [log_nothing rfl rfl rfl rfl]
    exact hi.returns hc rfl rfl rfl rfl rfl rfl rfl

theorem winAbandon_alike {rsi rsi' : WinSiginfo} (h : winSigdeciderAbandon s rsi = .ok (s', rsi')) :
    ∃ g tss, s' = { s with g := g, tss := tss } := by
  unfold winSigdeciderAbandon at h
  split at h
  · obtain ⟨rfl, -⟩ := Prod.mk.inj (pure_ok.mp h)
    exact ⟨_, _, rfl⟩
  · obtain ⟨tss, -, h⟩ := bind_ok.mp h
    obtain ⟨tss, -, h⟩ := bind_ok.mp h
    obtain ⟨⟨tss, info⟩, -, h⟩ := bind_ok.mp h
    simp only at h
    split at h
    · obtain ⟨g, -, h⟩ := bind_ok.mp h
      obtain ⟨⟨tss, info⟩, -, h⟩ := bind_ok.mp h
      obtain ⟨rfl, -⟩ := Prod.mk.inj (pure_ok.mp h)
      exact ⟨g, _, rfl⟩
    · obtain ⟨rfl, -⟩ := Prod.mk.inj (pure_ok.mp h)
      exact ⟨_, _, rfl⟩

theorem CacheKept.abandon (hi : CacheKept w l) (h : l.state.abandonPass = .ok s') :
    CacheKept w { l with state := s' } := by
  unfold WinState.abandonPass at h
  split at h
  · obtain ⟨info, -, h⟩ := bind_ok.mp h
    obtain ⟨⟨t, info'⟩, ht, h⟩ := bind_ok.mp h
    obtain ⟨g, tss, rfl⟩ := winAbandon_alike ht
    obtain rfl := pure_ok.mp h
    exact hi.same rfl rfl rfl rfl rfl rfl rfl rfl
  · cases h

theorem CacheKept.leave {out : Nat} (hi : CacheKept w l)
    (h : l.state.leavePass out = .ok s') : CacheKept w { l with state := s' } := by
  unfold WinState.leavePass at h
  split at h
  · rename_i x hook item current rsi rest hc
    obtain ⟨info, -, h⟩ := bind_ok.mp h
    simp only at h
    split at h
    · obtain rfl := pure_ok.mp h
      exact hi.falls hc none rfl (List.drop_suffix out rest) rfl (adds_nothing rfl rfl rfl)
        (hi.vacant hc (by simp) (by simp)) (hi.sound.same rfl rfl rfl rfl)
    · cases h
  · cases h

theorem CacheKept.step {act : CacheAction} (hi : CacheKept w l) (ha : act.coded = true)
    (h : cacheStep w l act = .ok l') : CacheKept w l' := by
  cases act with
  | lib act =>
    obtain ⟨s', hs, h⟩ := bind_ok.mp h
    obtain rfl := pure_ok.mp h
    exact hi.lib ha hs
  | abandon =>
    obtain ⟨s', hs, h⟩ := bind_ok.mp h
    obtain rfl := pure_ok.mp h
    exact hi.abandon hs
  | leave out =>
    obtain ⟨s', hs, h⟩ := bind_ok.mp h
    obtain rfl := pure_ok.mp h
    exact hi.leave hs

theorem cacheKept_initial (w : WinPlatform) (g : Global) : CacheKept w (.initial g) where
  allotted := Allotted.nil 0
  new a _ := ⟨by simp [CacheLog.initial], by simp [CacheLog.initial],
    by simp [CacheLog.claims, CacheLog.initial, WinState.initial]⟩
  coded x pc hm := by cases hm
  fits x pc hm := by cases hm
  below c hm := by cases hm
  entry := .vacant rfl fun x rest hc => by cases hc
  sound := ⟨List.nodup_nil, fun _ _ => List.not_mem_nil, List.nodup_nil, fun r hm => by cases hm⟩

end

end Wg14Signals
