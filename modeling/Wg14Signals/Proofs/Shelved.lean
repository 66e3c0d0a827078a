import Wg14Signals.Lib.Beside
import Wg14Signals.Abandonment
import Wg14Signals.Proofs.Dispatch

namespace Wg14Signals
open Lib

/-- One reference fewer. -/
def Container.short (k : Container) : Container :=
  { k with lifetimeRefcount := k.lifetimeRefcount - 1 }

def Node.short (nd : Node) : Node := { nd with refcount := nd.refcount - 1 }

/-- Without the references of a raise that has been abandoned in the decider of a node. -/
@[simps -fullyApplied]
def Global.short (g : Global) (item current : Addr) : Global :=
  { g with
    containers := g.containers.mapAt (some item) Container.short
    nodes := g.nodes.mapAt (some current) Node.short }

theorem node_beside : DList.Beside Node.short := ⟨fun _ => rfl, fun _ _ => rfl⟩

section

variable {g g' : Global} {item current c n : Addr} {k : Container} {nd : Node}

theorem readContainer_short (h : (g.short item current).readContainer c = .ok k) :
    ∃ k₀, g.readContainer c = .ok k₀ ∧ k = if c = item then k₀.short else k₀ := by
  obtain ⟨k₀, hk₀, hk⟩ := Heap.read_mapAt h
  exact ⟨k₀, hk₀, by simpa using hk⟩

theorem readNode_short (h : (g.short item current).readNode (some n) = .ok nd) :
    ∃ nd₀, g.readNode (some n) = .ok nd₀ ∧ nd = if n = current then nd₀.short else nd₀ := by
  obtain ⟨nd₀, hn₀, hn⟩ := Heap.read_mapAt h
  exact ⟨nd₀, hn₀, by simpa using hn⟩

theorem setContainer_short (k : Container) :
    (g.short item current).setContainer c (if c = item then k.short else k) =
      (g.setContainer c k).short item current := by
  simp only [Global.setContainer, Global.setContainers, Global.short, Heap.set_mapAt]

theorem setNode_short (nd : Node) :
    (g.short item current).setNode n (some (if n = current then nd.short else nd)) =
      (g.setNode n (some nd)).short item current := by
  simp only [Global.setNode, Global.setNodes, Global.short, Heap.set_mapAt]

theorem abandon_short (hc : g.containers item = some k) (hn : g.nodes current = some nd) :
    sigdeciderAbandon g item current = .ok (g.short item current) := by
  refine bind_ok.mpr ⟨k, Heap.read_some hc, bind_ok.mpr ⟨nd, Heap.read_some hn, ?_⟩⟩
  simp only [Global.short, ← Heap.set_map hc, ← Heap.set_map hn]
  rfl

theorem resume_short (hc : g.containers item = some k) (hn : g.nodes current = some nd) :
    sigdeciderAbandonResume (g.short item current) item current = .ok g := by
  have hc' : (g.short item current).containers item = some k.short := by simp [hc]
  have hn' : (g.short item current).nodes current = some nd.short := by simp [hn]
  refine bind_ok.mpr ⟨_, Heap.read_some hc', bind_ok.mpr ⟨_, Heap.read_some hn', ?_⟩⟩
  refine congrArg Except.ok ?_
  simp only [Global.short, Container.short, Node.short, Global.setContainer, Global.setContainers,
    Global.setNode, Global.setNodes, Int.sub_add_cancel, ← Heap.set_map hc, ← Heap.set_map hn]
  rw [set_back hc, set_back hn]

/-- A container that keeps a reference in any case is released alike. -/
theorem release_short (h : sighandlerInfoRelease (g.short item current) c = .ok g')
    (hmore : ∀ k, g.containers c = some k →
      k.lifetimeRefcount ≠ 1 ∧ (c = item → k.lifetimeRefcount ≠ 2)) :
    ∃ g₁, sighandlerInfoRelease g c = .ok g₁ ∧ g' = g₁.short item current := by
  obtain ⟨k, hk, h⟩ := bind_ok.mp h
  obtain ⟨k₀, hk₀, rfl⟩ := readContainer_short hk
  obtain ⟨_, hcc, hlive⟩ := Heap.read_ok.mp hk₀
  cases hcc
  obtain ⟨hone, htwo⟩ := hmore k₀ hlive
  have hkeep : ¬ (if c = item then k₀.short else k₀).lifetimeRefcount - 1 = 0 := by
    split
    · have := htwo ‹_›
      simp only [Container.short]
      omega
    · omega
  rw [if_neg hkeep] at h
  obtain rfl := pure_ok.mp h
  refine ⟨_, bind_ok.mpr ⟨k₀, hk₀, if_neg (by omega)⟩, ?_⟩
  rw [← setContainer_short]
  congr 1
  split <;> rfl

theorem pin_short {value : Int} (h : pinNode (g.short item current) n = .ok (value, g')) :
    ∃ g₁, pinNode g n = .ok (value, g₁) ∧ g' = g₁.short item current := by
  obtain ⟨nd, hn, h⟩ := bind_ok.mp h
  obtain ⟨nd₀, hn₀, hnd⟩ := readNode_short hn
  obtain ⟨rfl, rfl⟩ := Prod.mk.inj (pure_ok.mp h)
  let nd₁ : Node := { nd₀ with refcount := nd₀.refcount + 1 }
  have hsame : nd.value = nd₀.value := by rw [hnd]; split <;> rfl
  have hpin : { nd with refcount := nd.refcount + 1 } = if n = current then nd₁.short else nd₁ := by
    rw [hnd]
    split
    · simp [nd₁, Node.short]
    · rfl
  refine ⟨g.setNode n (some nd₁), bind_ok.mpr ⟨nd₀, hn₀, by rw [hsame]; rfl⟩, ?_⟩
  rw [hpin, setNode_short]

/-- A node that keeps a reference in any case stays. Any other goes its way alike. -/
theorem unpin_short {next : Option Addr}
    (h : unpinNode (g.short item current) c n = .ok (next, g'))
    (hmore : n = current → ∀ nd, g.nodes n = some nd → nd.refcount ≠ 1 ∧ nd.refcount ≠ 2) :
    ∃ g₁, unpinNode g c n = .ok (next, g₁) ∧ g' = g₁.short item current := by
  obtain ⟨nd, hn, h⟩ := bind_ok.mp h
  obtain ⟨nd₀, hn₀, hnd⟩ := readNode_short hn
  let nd₁ : Node := { nd₀ with refcount := nd₀.refcount - 1 }
  have hlinks : nd.links = nd₀.links := by rw [hnd]; split <;> rfl
  have hunpin : { nd with refcount := nd.refcount - 1 } = if n = current then nd₁.short else nd₁ := by
    rw [hnd]
    split <;> rfl
  have hzero : nd.refcount - 1 = 0 ↔ nd₀.refcount - 1 = 0 := by
    rw [hnd]
    split
    · rename_i hcur
      obtain ⟨_, he, hlive⟩ := Heap.read_ok.mp hn₀
      cases he
      obtain ⟨hone, htwo⟩ := hmore hcur nd₀ hlive
      simp only [Node.short]
      omega
    · exact Iff.rfl
  simp only [hunpin, setNode_short] at h
  simp only [hlinks] at h
  split at h
  · rename_i hz
    obtain ⟨k, hk, h⟩ := bind_ok.mp h
    obtain ⟨k₀, hk₀, hkk⟩ := readContainer_short hk
    obtain ⟨⟨nodes, global⟩, hremove, h⟩ := bind_ok.mp h
    obtain ⟨⟨nodes', deferred⟩, hinsert, h⟩ := bind_ok.mp h
    obtain ⟨rfl, rfl⟩ := Prod.mk.inj (pure_ok.mp h)
    have hglobal : k.globalHandler = k₀.globalHandler := by rw [hkk]; split <;> rfl
    have hdeferred : k.deferredFrees = k₀.deferredFrees := by rw [hkk]; split <;> rfl
    rw [hglobal] at hremove
    rw [hdeferred] at hinsert
    obtain ⟨h₁, hremove₁, rfl⟩ := node_beside.remove hremove
    obtain ⟨h₂, hinsert₁, rfl⟩ := node_beside.insertBack hinsert
    let k₁ : Container := { k₀ with globalHandler := global, deferredFrees := deferred }
    have hput : { k with globalHandler := global, deferredFrees := deferred } =
        if c = item then k₁.short else k₁ := by
      rw [hkk]
      split <;> rfl
    refine ⟨((g.setNode n (some nd₁)).setNodes h₂).setContainer c k₁, ?_, ?_⟩
    · refine bind_ok.mpr ⟨nd₀, hn₀, (if_pos (hzero.mp hz)).trans ?_⟩
      exact bind_ok.mpr ⟨k₀, hk₀, bind_ok.mpr ⟨_, hremove₁, bind_ok.mpr ⟨_, hinsert₁, rfl⟩⟩⟩
    · rw [hput, ← setContainer_short]
      rfl
  · rename_i hz
    obtain ⟨rfl, rfl⟩ := Prod.mk.inj (pure_ok.mp h)
    exact ⟨g.setNode n (some nd₁), bind_ok.mpr ⟨nd₀, hn₀, if_neg (mt hzero.mpr hz)⟩, rfl⟩

/-- A raise begins alike, if the signal's container has references of others. -/
theorem raiseEnter_short {signo : Signo} {e : Entered}
    (h : raiseEnter (g.short item current) signo = .ok (e, g'))
    (hmore : ∀ c k, g.map signo = some c → g.containers c = some k →
      k.lifetimeRefcount ≠ 0 ∧ (c = item → k.lifetimeRefcount ≠ 1)) :
    ∃ g₁, raiseEnter g signo = .ok (e, g₁) ∧ g' = g₁.short item current := by
  unfold raiseEnter at h ⊢
  simp only [Global.short_map] at h
  split at h
  · rename_i hm
    obtain ⟨rfl, rfl⟩ := Prod.mk.inj (pure_ok.mp h)
    exact ⟨g, rfl, rfl⟩
  · rename_i c hm
    obtain ⟨k, hk, h⟩ := bind_ok.mp h
    obtain ⟨k₀, hk₀, hkk⟩ := readContainer_short hk
    let k₁ : Container := { k₀ with lifetimeRefcount := k₀.lifetimeRefcount + 1 }
    have hheld : { k with lifetimeRefcount := k.lifetimeRefcount + 1 } =
        if c = item then k₁.short else k₁ := by
      rw [hkk]
      split
      · simp [k₁, Container.short]
      · rfl
    have hglobal : k.globalHandler = k₀.globalHandler := by rw [hkk]; split <;> rfl
    have hold : k.oldHandler = k₀.oldHandler := by rw [hkk]; split <;> rfl
    simp only [hheld, setContainer_short] at h
    simp only [hglobal, hold] at h
    split at h
    · rename_i n hfront
      obtain ⟨⟨value, g₂⟩, hpin, h⟩ := bind_ok.mp h
      obtain ⟨rfl, rfl⟩ := Prod.mk.inj (pure_ok.mp h)
      obtain ⟨g₁, hpin₁, rfl⟩ := pin_short hpin
      refine ⟨g₁, bind_ok.mpr ⟨k₀, hk₀, ?_⟩, rfl⟩
      simp only [hfront]
      exact bind_ok.mpr ⟨_, hpin₁, rfl⟩
    · rename_i hfront
      obtain ⟨g₂, hrelease, h⟩ := bind_ok.mp h
      obtain ⟨rfl, rfl⟩ := Prod.mk.inj (pure_ok.mp h)
      obtain ⟨_, hcc, hlive⟩ := Heap.read_ok.mp hk₀
      cases hcc
      obtain ⟨hzero, hone⟩ := hmore c k₀ hm hlive
      obtain ⟨g₁, hrelease₁, rfl⟩ := release_short hrelease fun k hk => by
        obtain rfl := Option.some.inj ((Heap.set_self ..).symm.trans hk)
        simp only [k₁]
        exact ⟨by omega, fun hc => by have := hone hc; omega⟩
      refine ⟨g₁, bind_ok.mpr ⟨k₀, hk₀, ?_⟩, rfl⟩
      simp only [hfront]
      exact bind_ok.mpr ⟨_, hrelease₁, rfl⟩

/-- It goes on alike from one decider to the next. -/
theorem raiseLeave_short {l : Left} {claimed : Bool}
    (h : raiseLeave (g.short item current) c n claimed = .ok (l, g'))
    (hnode : n = current → ∀ nd, g.nodes n = some nd → nd.refcount ≠ 1 ∧ nd.refcount ≠ 2)
    (hmore : ∀ next g₁ k, unpinNode g c n = .ok (next, g₁) → g₁.containers c = some k →
      k.lifetimeRefcount ≠ 1 ∧ (c = item → k.lifetimeRefcount ≠ 2)) :
    ∃ g₁, raiseLeave g c n claimed = .ok (l, g₁) ∧ g' = g₁.short item current := by
  obtain ⟨⟨next, g₂⟩, hunpin, h⟩ := bind_ok.mp h
  obtain ⟨g₁, hunpin₁, rfl⟩ := unpin_short hunpin hnode
  unfold raiseLeave
  simp only at h
  split at h
  · rename_i hclaimed
    obtain ⟨g₃, hrelease, h⟩ := bind_ok.mp h
    obtain ⟨rfl, rfl⟩ := Prod.mk.inj (pure_ok.mp h)
    obtain ⟨g₄, hrelease₁, rfl⟩ := release_short hrelease fun k => hmore _ g₁ k hunpin₁
    exact ⟨g₄, bind_ok.mpr ⟨_, hunpin₁, (if_pos hclaimed).trans (bind_ok.mpr ⟨_, hrelease₁, rfl⟩)⟩, rfl⟩
  · rename_i hclaimed
    split at h
    · rename_i m hnext
      obtain ⟨⟨value, g₃⟩, hpin, h⟩ := bind_ok.mp h
      obtain ⟨rfl, rfl⟩ := Prod.mk.inj (pure_ok.mp h)
      obtain ⟨g₄, hpin₁, rfl⟩ := pin_short hpin
      exact ⟨g₄, bind_ok.mpr ⟨_, hunpin₁, (if_neg hclaimed).trans (bind_ok.mpr ⟨_, hpin₁, rfl⟩)⟩, rfl⟩
    · rename_i hnext
      obtain ⟨g₃, hrelease, h⟩ := bind_ok.mp h
      obtain ⟨rfl, rfl⟩ := Prod.mk.inj (pure_ok.mp h)
      obtain ⟨g₄, hrelease₁, rfl⟩ := release_short hrelease fun k => hmore _ g₁ k hunpin₁
      exact ⟨g₄, bind_ok.mpr ⟨_, hunpin₁, (if_neg hclaimed).trans (bind_ok.mpr ⟨_, hrelease₁, rfl⟩)⟩, rfl⟩

end

/-- The thread has been abandoned in the decider of a node. -/
@[simps -fullyApplied]
def GuardState.shelved (v : GuardState) (item current rsi : Addr) : GuardState :=
  { v with
    process := { v.process with g := v.g.short item current }
    infos := v.infos.mapAt (some rsi) fun info => info.marked true }

/-- Whatever comes of the first comes of the second without the abandonment. -/
def Unshelves (item current rsi : Addr) (x y : Except ThreadFault GuardState) : Prop :=
  ∀ t, x = .ok t → ∃ v, y = .ok v ∧ t = v.shelved item current rsi

section

variable {α : Type} {item current rsi : Addr} {v : GuardState} {x y x' y' : Except ThreadFault GuardState}
  {args : RaiseArgs} {delivered : Bool} {rest : List GuardCall} {p : Platform}

@[simp] theorem store_shelved : (v.shelved item current rsi).store = v.store := rfl
@[simp] theorem g_shelved : (v.shelved item current rsi).g = v.g.short item current := rfl

namespace Unshelves

theorem ok {w : GuardState} (h : w = v.shelved item current rsi) :
    Unshelves item current rsi (.ok w) (.ok v) := by
  intro t ht
  exact ⟨v, rfl, (Except.ok.inj ht).symm.trans h⟩

theorem error (e : ThreadFault) : Unshelves item current rsi (.error e) y := by
  intro t ht
  cases ht

theorem bind {x : Except ThreadFault α} {f f' : α → Except ThreadFault GuardState}
    (h : ∀ a, x = .ok a → Unshelves item current rsi (f a) (f' a)) :
    Unshelves item current rsi (x >>= f) (x >>= f') := by
  intro t ht
  obtain ⟨a, ha, ht⟩ := bind_ok.mp ht
  obtain ⟨v, hv, ht⟩ := h a ha t ht
  exact ⟨v, bind_ok.mpr ⟨a, ha, hv⟩, ht⟩

theorem ite {c : Prop} [Decidable c] (h : c → Unshelves item current rsi x y)
    (h' : ¬c → Unshelves item current rsi x' y') :
    Unshelves item current rsi (if c then x else x') (if c then y else y') := by
  by_cases hc : c
  · rw [if_pos hc, if_pos hc]
    exact h hc
  · rw [if_neg hc, if_neg hc]
    exact h' hc

end Unshelves

theorem shelved_answer (v : GuardState) (result : Bool) :
    (v.shelved item current rsi).answer args delivered result rest =
      (v.answer args delivered result rest).shelved item current rsi := by
  unfold GuardState.answer
  split
  · split <;> rfl
  · rfl

theorem shelved_discard (v : GuardState) (gone : List GuardCall) :
    (v.shelved item current rsi).discard gone = (v.discard gone).shelved item current rsi := by
  have hinfos : ((v.shelved item current rsi).discard gone).infos =
      ((v.discard gone).shelved item current rsi).infos := by
    funext a
    simp only [GuardState.discard_infos, GuardState.shelved_infos, Heap.mapAt]
    split
    · split <;> rfl
    · rfl
  exact congrArg (fun infos => { (v.discard gone).shelved item current rsi with infos }) hinfos

theorem set_shelved {infos : Heap Siginfo} {b : Addr} (hb : b ≠ rsi) (info : Siginfo) :
    (infos.mapAt (some rsi) fun info => info.marked true).set b (some info) =
      (infos.set b (some info)).mapAt (some rsi) fun info => info.marked true := by
  rw [← Heap.set_mapAt, if_neg hb]

theorem shelved_setInfo {b : Addr} (hb : b ≠ rsi) (info : Siginfo) :
    (v.shelved item current rsi).setInfo b info =
      (v.setInfo b info).shelved item current rsi :=
  congrArg (fun infos => { (v.setInfo b info).shelved item current rsi with infos })
    (set_shelved hb info)

theorem shelved_ask (hn : v.nextInfo ≠ rsi) (who : Consulted) (info : Siginfo)
    (pc : Addr → GuardPc) :
    (v.shelved item current rsi).ask args delivered who info pc rest =
      (v.ask args delivered who info pc rest).shelved item current rsi :=
  congrArg
    (fun infos => { (v.ask args delivered who info pc rest).shelved item current rsi with infos })
    (set_shelved hn info)

theorem pushRaise_shelved (env : SetupEnv) (calls : List GuardCall) :
    Unshelves item current rsi ((v.shelved item current rsi).pushRaise p args delivered env calls)
      (v.pushRaise p args delivered env calls) := by
  have answered : Unshelves item current rsi
      (.ok (((v.shelved item current rsi).setStore (v.store.init env).2).answer args delivered
        false calls))
      (.ok ((v.setStore (v.store.init env).2).answer args delivered false calls)) :=
    .ok (shelved_answer (v.setStore (v.store.init env).2) false)
  simp only [GuardState.pushRaise, store_shelved, store_setStore]
  refine .ite (fun _ => answered) fun _ => .ite (fun _ => answered) fun _ => ?_
  exact .bind fun tss _ => .bind fun state _ => .ok rfl

theorem walkSection_shelved {frame : Addr} (hn : v.nextInfo ≠ rsi) :
    Unshelves item current rsi (walkSection (v.shelved item current rsi) args delivered frame rest)
      (walkSection v args delivered frame rest) := by
  refine .bind fun f _ => .ite (fun _ => ?_) fun _ => .ok rfl
  exact .ok (shelved_ask hn _ _ _)

/-- The container of the signal has references of others. -/
theorem globalSection_shelved (hn : v.nextInfo ≠ rsi)
    (hmore : ∀ c k, v.g.map args.signo = some c → v.g.containers c = some k →
      k.lifetimeRefcount ≠ 0 ∧ (c = item → k.lifetimeRefcount ≠ 1)) :
    Unshelves item current rsi (globalSection (v.shelved item current rsi) args delivered rest)
      (globalSection v args delivered rest) := by
  intro t ht
  obtain ⟨⟨e, g⟩, he, ht⟩ := bind_ok.mp ht
  obtain ⟨g₁, he₁, rfl⟩ := raiseEnter_short (ofLib_ok.mp he) hmore
  cases e with
  | absent =>
    obtain rfl := pure_ok.mp ht
    exact ⟨_, bind_ok.mpr ⟨_, ofLib_ok.mpr he₁, rfl⟩, shelved_answer (v.setG g₁) false⟩
  | unclaimed sa =>
    obtain rfl := pure_ok.mp ht
    exact ⟨_, bind_ok.mpr ⟨_, ofLib_ok.mpr he₁, rfl⟩, rfl⟩
  | deciding item' current' value sa =>
    obtain rfl := pure_ok.mp ht
    exact ⟨_, bind_ok.mpr ⟨_, ofLib_ok.mpr he₁, rfl⟩, shelved_ask (v := v.setG g₁) hn _ _ _⟩

theorem guardSection_shelved {pc : GuardPc} (hn : v.nextInfo ≠ rsi)
    (hmore : ∀ c k, v.g.map args.signo = some c → v.g.containers c = some k →
      k.lifetimeRefcount ≠ 0 ∧ (c = item → k.lifetimeRefcount ≠ 1)) :
    Unshelves item current rsi (guardSection p (v.shelved item current rsi) args delivered pc rest)
      (guardSection p v args delivered pc rest) := by
  cases pc with
  | walk frame =>
    cases frame with
    | none => exact globalSection_shelved hn hmore
    | some a => exact walkSection_shelved hn
  | asking frame rsi => exact .error _
  | deciding item current rsi sa => exact .error _
  | handler handler => exact .error _
  | invoke sa =>
    simp only [guardSection]
    cases invokeSigaction p sa args.signo with
    | calls handler =>
      cases handler with
      | raw => exact pushRaise_shelved _ _
      | _ => exact .ok rfl
    | default => exact .ok rfl
    | ignores => exact .ok (shelved_answer v true)
  | handoff hand =>
    cases hand with
    | query => exact .ok rfl
    | reset sa => exact .ok rfl
    | kill sa => exact .ite (fun _ => pushRaise_shelved _ _) fun _ => .ok rfl
    | restore sa => exact .ok (shelved_answer (v.setG (v.g.setKernel args.signo sa)) true)

theorem longjmp_shelved (v : GuardState) (a : Addr) :
    Unshelves item current rsi ((v.shelved item current rsi).longjmp a) (v.longjmp a) := by
  unfold GuardState.longjmp
  simp only [GuardState.shelved_calls]
  cases v.calls.dropWhile fun c => !c.holds a with
  | nil => exact .error _
  | cons c rest =>
    cases c with
    | raise => exact .error _
    | sigguarded frame tss old recovering =>
      refine .bind fun f _ => .bind fun store _ => .ok ?_
      rw [shelved_discard]
      rfl

/-- What another decider has been given is read alike. -/
theorem readInfo_shelved {b : Addr} (hb : b ≠ rsi) :
    (v.shelved item current rsi).infos.read ThreadFault.info (some b) =
      v.infos.read ThreadFault.info (some b) := by
  unfold Heap.read
  simp only [GuardState.shelved_infos]
  rw [Heap.mapAt_other _ _ (by simpa using hb)]

theorem frameAnswer_shelved {a b : Addr} {d : Decision} (hb : b ≠ rsi) :
    Unshelves item current rsi
      (frameAnswer (v.shelved item current rsi) args delivered a b d rest)
      (frameAnswer v args delivered a b d rest) := by
  let gone := [GuardCall.raise args delivered (.asking a b)]
  have onward : ∀ frame, Unshelves item current rsi
      (.ok (((v.shelved item current rsi).discard gone).goto
        (.raise args delivered (.walk frame) :: rest)))
      (.ok ((v.discard gone).goto (.raise args delivered (.walk frame) :: rest))) :=
    fun frame => .ok (by rw [shelved_discard]; rfl)
  simp only [frameAnswer, readInfo_shelved hb]
  refine .bind fun info _ => .ite (fun _ => .error _) fun _ => .bind fun f _ => ?_
  cases d with
  | nextDecider => exact onward f.prev
  | resumeExecution =>
    refine .ok ?_
    rw [shelved_discard, shelved_answer]
  | callRecovery =>
    exact .ite (fun _ => longjmp_shelved (v.setFrame a { f with rsi := info }) a)
      fun _ => onward f.prev

/-- Another node's decider, or this one's while the node has references of others. -/
theorem globalAnswer_shelved {c n b : Addr} {sa : Sigaction} {d : Decision} (hb : b ≠ rsi)
    (hnode : n = current → ∀ nd, v.g.nodes n = some nd → nd.refcount ≠ 1 ∧ nd.refcount ≠ 2)
    (hmore : ∀ next g₁ k, unpinNode v.g c n = .ok (next, g₁) → g₁.containers c = some k →
      k.lifetimeRefcount ≠ 1 ∧ (c = item → k.lifetimeRefcount ≠ 2)) :
    Unshelves item current rsi
      (globalAnswer (v.shelved item current rsi) args delivered c n b sa d rest)
      (globalAnswer v args delivered c n b sa d rest) := by
  simp only [globalAnswer, readInfo_shelved hb]
  refine .bind fun info _ => .ite (fun _ => .error _) fun _ => ?_
  intro t ht
  obtain ⟨⟨l, g⟩, hl, ht⟩ := bind_ok.mp ht
  obtain ⟨g₁, hl₁, rfl⟩ := raiseLeave_short (ofLib_ok.mp hl) hnode hmore
  cases l with
  | claimed =>
    obtain rfl := pure_ok.mp ht
    refine ⟨_, bind_ok.mpr ⟨_, ofLib_ok.mpr hl₁, rfl⟩, ?_⟩
    exact (congrArg (GuardState.answer · args delivered true rest)
      (shelved_discard (v.setG g₁) _)).trans (shelved_answer _ true)
  | unclaimed =>
    obtain rfl := pure_ok.mp ht
    refine ⟨_, bind_ok.mpr ⟨_, ofLib_ok.mpr hl₁, rfl⟩, ?_⟩
    exact congrArg (GuardState.goto · _) (shelved_discard (v.setG g₁) _)
  | deciding next value =>
    obtain rfl := pure_ok.mp ht
    refine ⟨_, bind_ok.mpr ⟨_, ofLib_ok.mpr hl₁, rfl⟩, ?_⟩
    exact congrArg (fun w => (GuardState.goto w _).emit _) (shelved_setInfo (v := v.setG g₁) hb _)

theorem pushGuard_shelved {signals : SigSet} {recovery : Bool} {decider : Nat} {value : Int}
    {env : SetupEnv} :
    Unshelves item current rsi
      (pushGuard (v.shelved item current rsi) signals recovery decider value env)
      (pushGuard v signals recovery decider value env) := by
  simp only [pushGuard, store_shelved, store_setStore]
  refine .ite (fun _ => .ok rfl) fun _ => ?_
  exact .bind fun tss _ => .bind fun state _ => .bind fun store _ => .ok rfl

theorem returnSection_shelved {value : Int} :
    Unshelves item current rsi (returnSection (v.shelved item current rsi) value)
      (returnSection v value) := by
  simp only [returnSection, GuardState.shelved_calls]
  cases v.calls with
  | nil => exact .error _
  | cons c rest =>
    cases c with
    | sigguarded frame tss old recovering =>
      simp only [shelved_discard]
      exact .ite (fun _ => .ok rfl) fun _ => .bind fun store _ => .ok rfl
    | raise args delivered pc =>
      cases pc with
      | handler handler => exact .ok (shelved_answer v true)
      | _ => exact .error _

end

end Wg14Signals
