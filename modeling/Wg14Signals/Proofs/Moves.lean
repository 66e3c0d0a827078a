import Wg14Signals.Holdings

namespace Wg14Signals
open Lib

/-- The calls a thread may begin, as they stand before their first section, and the install
handles that are then outstanding. -/
inductive Begins (p : Platform) (s : State) : Call → List (Nat × SigSet) → Prop where
  | siginstall (set : SigSet) : Begins p s (.siginstall set [] (p.members set)) s.installs
  | siguninstall (h : Nat × SigSet) (hf : s.installs.find? (fun x => x.1 == h.1) = some h) :
      Begins p s (.siguninstall (p.members h.2)) (s.installs.eraseP fun x => x.1 == h.1)
  | create (args : CreateArgs) (ho : args.owner = s.nextId) :
      Begins p s (.create args []) s.installs
  | guard (signals : SigSet) (recovery : Bool) : Begins p s (.guard signals recovery) s.installs

/-- The install handle a call returns in its next section. -/
def Act.returns (a : Act) : List (Nat × SigSet) :=
  match a.call with
  | .siginstall set _ [] => [(a.id, set)]
  | _ => []

/-- One section of a call: the calls that take its place, the handle it returns
if any, and the library's state after it. -/
inductive Turn (p : Platform) (s : State) (a : Act) : List Act → List Handle → Global → Prop where
  | siginstalled (set : SigSet) (done : List Signo) (hc : a.call = .siginstall set done []) :
      Turn p s a [] [] s.g
  | install (set : SigSet) (done : List Signo) (signo : Signo) (todo : List Signo)
      (env : InstallEnv) (ok : Bool) (g' : Global)
      (hc : a.call = .siginstall set done (signo :: todo))
      (op : installSighandler s.g signo env = .ok (ok, g')) :
      Turn p s a
        [a.goto (if ok then .siginstall set (done ++ [signo]) todo else .rollback done)] [] g'
  | rolledBack (hc : a.call = .rollback []) : Turn p s a [] [] s.g
  | rollback (signo : Signo) (todo : List Signo) (g' : Global)
      (hc : a.call = .rollback (signo :: todo)) (op : uninstallSighandler s.g signo = .ok g') :
      Turn p s a [a.goto (.rollback todo)] [] g'
  | siguninstalled (hc : a.call = .siguninstall []) : Turn p s a [] [] s.g
  | uninstall (signo : Signo) (todo : List Signo) (g' : Global)
      (hc : a.call = .siguninstall (signo :: todo)) (op : uninstallSighandler s.g signo = .ok g') :
      Turn p s a [a.goto (.siguninstall todo)] [] g'
  | created (args : CreateArgs) (filled : List (Option Addr)) (hc : a.call = .create args filled)
      (hd : (p.members args.guarded).drop filled.length = []) :
      Turn p s a [] [⟨args.owner, args.guarded, padded p args.guarded filled⟩] s.g
  | create (args : CreateArgs) (filled : List (Option Addr)) (signo : Signo) (todo : List Signo)
      (env : InstallEnv) (i : Addr) (g' : Global) (hc : a.call = .create args filled)
      (hd : (p.members args.guarded).drop filled.length = signo :: todo)
      (op : createNode s.g signo args env.calloc = .ok (.linked i, g')) :
      Turn p s a [a.goto (.create args (filled ++ [some i]))] [] g'
  | missing (args : CreateArgs) (filled : List (Option Addr)) (signo : Signo) (todo : List Signo)
      (env : InstallEnv) (g' : Global) (hc : a.call = .create args filled)
      (hd : (p.members args.guarded).drop filled.length = signo :: todo)
      (op : createNode s.g signo args env.calloc = .ok (.missing, g')) :
      Turn p s a [a.goto (.create args (filled ++ [none]))] [] g'
  | giveUp (args : CreateArgs) (filled : List (Option Addr)) (signo : Signo) (env : InstallEnv)
      (g' : Global) (hc : a.call = .create args filled)
      (op : createNode s.g signo args env.calloc = .ok (.outOfMemory, g')) :
      Turn p s a
        [a.goto (.destroy args.owner args.guarded (padded p args.guarded filled) p.loop false)]
        [] g'
  | destroyed (handle : Nat) (guarded : SigSet) (retp : List (Option Addr)) (unlocked : Bool)
      (hc : a.call = .destroy handle guarded retp [] unlocked) : Turn p s a [] [] s.g
  | destroyUnlocked (handle : Nat) (guarded : SigSet) (slot : Option Addr)
      (retp : List (Option Addr)) (signo : Signo) (todo : List Signo) (g' : Global)
      (hc : a.call = .destroy handle guarded (slot :: retp) (signo :: todo) true)
      (hs : guarded signo = true) (op : destroyUnlocked s.g slot = .ok g') :
      Turn p s a [a.goto (.destroy handle guarded retp todo false)] [] g'
  | destroyLocked (handle : Nat) (guarded : SigSet) (slot slot' : Option Addr)
      (retp : List (Option Addr)) (signo : Signo) (todo : List Signo) (g' : Global)
      (hc : a.call = .destroy handle guarded (slot :: retp) (signo :: todo) false)
      (hs : guarded signo = true) (op : destroyLocked s.g signo slot = .ok (slot', g')) :
      Turn p s a [a.goto (.destroy handle guarded (slot' :: retp) (signo :: todo) true)] [] g'
  | destroySkip (handle : Nat) (guarded : SigSet) (slot : Option Addr) (retp : List (Option Addr))
      (signo : Signo) (todo : List Signo) (unlocked : Bool) (g' : Global)
      (hc : a.call = .destroy handle guarded retp (signo :: todo) unlocked)
      (hs : guarded signo = false) (op : destroyLocked s.g signo none = .ok (slot, g')) :
      Turn p s a [a.goto (.destroy handle guarded retp todo false)] [] g'
  | absent (r : Raise) (g' : Global) (hc : a.call = .raise r) (hr : r.phase = .frames [])
      (op : raiseEnter s.g r.signo = .ok (.absent, g')) :
      Turn p s a (if r.delivered then [a.phase r (.invoke .dfl)] else []) [] g'
  | enter (r : Raise) (item current : Addr) (value : Int) (sa : Sigaction) (g' : Global)
      (hc : a.call = .raise r) (hr : r.phase = .frames [])
      (op : raiseEnter s.g r.signo = .ok (.deciding item current value sa, g')) :
      Turn p s a [a.phase r (.deciding { item, current, value, sa })] [] g'
  | pass (r : Raise) (sa : Sigaction) (g' : Global) (hc : a.call = .raise r)
      (hr : r.phase = .frames []) (op : raiseEnter s.g r.signo = .ok (.unclaimed sa, g')) :
      Turn p s a [a.phase r (.invoke sa)] [] g'
  | call (r : Raise) (sa : Sigaction) (h : Handler) (hc : a.call = .raise r)
      (hr : r.phase = .invoke sa) (hi : invokeSigaction p sa r.signo = .calls h) :
      Turn p s a [a.phase r (.handler h)] [] s.g
  | default (r : Raise) (sa : Sigaction) (hc : a.call = .raise r) (hr : r.phase = .invoke sa)
      (hi : invokeSigaction p sa r.signo = .default) :
      Turn p s a [a.phase r (.handoff .query)] [] s.g
  | ignore (r : Raise) (sa : Sigaction) (hc : a.call = .raise r) (hr : r.phase = .invoke sa)
      (hi : invokeSigaction p sa r.signo = .ignores) : Turn p s a [] [] s.g
  | query (r : Raise) (hc : a.call = .raise r) (hr : r.phase = .handoff .query) :
      Turn p s a [a.phase r (.handoff (.reset (s.g.kernel r.signo)))] [] s.g
  | reset (r : Raise) (current : Sigaction) (hc : a.call = .raise r)
      (hr : r.phase = .handoff (.reset current)) :
      Turn p s a [a.phase r (.handoff (.kill current))] [] (s.g.setKernel r.signo .dfl)
  | kill (r : Raise) (current : Sigaction) (hc : a.call = .raise r)
      (hr : r.phase = .handoff (.kill current)) :
      Turn p s a [a.phase r (.handoff (.restore current))] [] s.g
  | restore (r : Raise) (current : Sigaction) (hc : a.call = .raise r)
      (hr : r.phase = .handoff (.restore current)) :
      Turn p s a [] [] (s.g.setKernel r.signo current)
  | nextFrame (r : Raise) (f : Frame) (fs : List Frame) (hc : a.call = .raise r)
      (hr : r.phase = .frames (f :: fs)) : Turn p s a [a.phase r (.frames fs)] [] s.g
  | resumed (r : Raise) (f : Frame) (fs : List Frame) (hc : a.call = .raise r)
      (hr : r.phase = .frames (f :: fs)) : Turn p s a [] [] s.g
  | claimed (r : Raise) (pin : Pin) (claimed : Bool) (g' : Global) (hc : a.call = .raise r)
      (hr : r.phase = .deciding pin) (ha : pin.abandoned = false)
      (op : raiseLeave s.g pin.item pin.current claimed = .ok (.claimed, g')) : Turn p s a [] [] g'
  | walk (r : Raise) (pin : Pin) (claimed : Bool) (current : Addr) (value : Int) (g' : Global)
      (hc : a.call = .raise r) (hr : r.phase = .deciding pin) (ha : pin.abandoned = false)
      (op : raiseLeave s.g pin.item pin.current claimed = .ok (.deciding current value, g')) :
      Turn p s a [a.phase r (.deciding { pin with current, value })] [] g'
  | unclaimed (r : Raise) (pin : Pin) (claimed : Bool) (g' : Global) (hc : a.call = .raise r)
      (hr : r.phase = .deciding pin) (ha : pin.abandoned = false)
      (op : raiseLeave s.g pin.item pin.current claimed = .ok (.unclaimed, g')) :
      Turn p s a [a.phase r (.invoke pin.sa)] [] g'
  | abandon (r : Raise) (pin : Pin) (g' : Global) (hc : a.call = .raise r)
      (hr : r.phase = .deciding pin) (ha : pin.abandoned = false)
      (op : sigdeciderAbandon s.g pin.item pin.current = .ok g') :
      Turn p s a [a.phase r (.deciding { pin with abandoned := true })] [] g'
  | jump (r : Raise) (pin : Pin) (hc : a.call = .raise r) (hr : r.phase = .deciding pin)
      (ha : pin.abandoned = true) : Turn p s a [] [] s.g
  | unguard (signals : SigSet) (recovery : Bool) (hc : a.call = .guard signals recovery) :
      Turn p s a [] [] s.g
  | handled (r : Raise) (h : Handler) (hc : a.call = .raise r) (hr : r.phase = .handler h) :
      Turn p s a [] [] s.g

/-- The step is one of the call `a`. Library code moves only when its thread advances. -/
structure Sections (s : State) (act : Action) (t : Tid) (a : Act) : Prop where
  drops : a.drops s.g = s.drops act
  advances : a.call.runsUserCode = false → ∃ env, act = .advance t env

theorem Sections.advance {s : State} {t : Tid} {a : Act} (ht : s.top t = some a)
    (env : InstallEnv) : Sections s (.advance t env) t a :=
  ⟨by simp [State.drops, ht], fun _ => ⟨env, rfl⟩⟩

theorem Sections.user {s : State} {act : Action} {t : Tid} {a : Act}
    (hu : a.call.runsUserCode = true) (hd : s.drops act = none) : Sections s act t a := by
  refine ⟨?_, fun hn => by simp [hu] at hn⟩
  rw [hd]
  unfold Act.drops
  split
  · rename_i hc
    simp [hc, Call.runsUserCode] at hu
  · rfl

/-- Everything a step can do. -/
inductive Moves (p : Platform) (s : State) (act : Action) (s' : State) : Prop where
  | idle (h : s' = s)
  | begins (t : Tid) (call : Call) (installs : List (Nat × SigSet)) (hb : Begins p s call installs)
      (h : s' = ({ s with installs } : State).push t call s.acts)
  | destroys (t : Tid) (h : Handle) (hf : s.handles.find? (fun x => x.id == h.id) = some h)
      (h' : s' = ({ s with handles := s.handles.eraseP fun x => x.id == h.id } : State).push t
        (.destroy h.id h.guarded h.slots p.loop false) s.acts)
      (hact : act = .destroy t h.id)
  | raises (t : Tid) (signo : Signo) (delivered : Bool)
      (h : s' = s.pushRaise p t signo delivered s.acts)
  | turns (t : Tid) (a : Act) (ys : List Act) (hs : List Handle) (ht : s.top t = some a)
      (turn : Turn p s a ys hs s'.g) (ha : s'.acts = ys ++ s.others t)
      (hh : s'.handles = hs ++ s.handles) (hl : s'.lost = s.lost) (hn : s'.nextId = s.nextId)
      (hd : Sections s act t a) (hi : s'.installs = a.returns ++ s.installs)
      (hu : ∀ x ∈ a.holds, (∃ d, act = .decide t d ∧ ∀ y ∈ ys, y.abandoned = false) ∨
        act = .abandon t ∧ ∃ y ∈ ys, y.abandoned = true)
  /-- The library's own handler is entered from `invoke_sigaction`. -/
  | reenters (t : Tid) (a : Act) (r : Raise) (phase : Phase) (ht : s.top t = some a)
      (hc : a.call = .raise r)
      (hp : (∃ sa, r.phase = .invoke sa ∧ invokeSigaction p sa r.signo = .calls .raw ∧
          phase = .handler .raw) ∨
        ∃ current, r.phase = .handoff (.kill current) ∧ phase = .handoff (.restore current))
      (h : s' = s.pushRaise p a.tid r.signo true (a.phase r phase :: s.others t))
  | recovers (t : Tid) (a : Act) (r : Raise) (f : Frame) (fs : List Frame) (ht : s.top t = some a)
      (hd : act = .decide t .callRecovery) (hc : a.call = .raise r)
      (hr : r.phase = .frames (f :: fs)) (hf : f.recovery = true)
      (h : s' = { s with
        acts := s.acts.filter fun b => !discarded t f b
        lost := s.acts.filter (discarded t f) ++ s.lost })

section

variable {p : Platform} {s s' : State} {act : Action} {a : Act} {t : Tid}

theorem raiseSection_moves {r : Raise} (ht : s.top t = some a) (hc : a.call = .raise r)
    (hd : Sections s act t a)
    (h : raiseSection p s a r (s.others t) = .ok s') : Moves p s act s' := by
  unfold raiseSection at h
  split at h
  · rename_i hr
    obtain ⟨⟨e, g'⟩, op, h⟩ := bind_ok.mp h
    cases e with
    | absent =>
      have hi : a.returns = [] := by simp [Act.returns, hc]
      refine .turns t a _ [] ht (.absent r s'.g hc hr ?_) ?_ ?_ ?_ ?_ hd ?_
        (by simp [Act.holds, hc, hr]) <;>
        cases hdel : r.delivered <;> simp [hdel] at h <;> subst h <;>
        first | exact op | rfl | simp [hi]
    | deciding item current value sa =>
      simp only [pure_ok] at h
      subst h
      exact .turns t a _ [] ht (.enter r item current value sa g' hc hr op) rfl rfl rfl rfl hd
        (by simp [Act.returns, hc]) (by simp [Act.holds, hc, hr])
    | unclaimed sa =>
      simp only [pure_ok] at h
      subst h
      exact .turns t a _ [] ht (.pass r sa g' hc hr op) rfl rfl rfl rfl hd
        (by simp [Act.returns, hc]) (by simp [Act.holds, hc, hr])
  · rename_i sa hr
    split at h
    · rename_i hi
      simp only [pure_ok] at h
      exact .reenters t a r _ ht hc (Or.inl ⟨sa, hr, hi, rfl⟩) h.symm
    · rename_i hi
      simp only [pure_ok] at h
      subst h
      exact .turns t a _ [] ht (.call r sa _ hc hr hi) rfl rfl rfl rfl hd
        (by simp [Act.returns, hc]) (by simp [Act.holds, hc, hr])
    · rename_i hi
      simp only [pure_ok] at h
      subst h
      exact .turns t a _ [] ht (.default r sa hc hr hi) rfl rfl rfl rfl hd
        (by simp [Act.returns, hc]) (by simp [Act.holds, hc, hr])
    · rename_i hi
      simp only [pure_ok] at h
      subst h
      exact .turns t a [] [] ht (.ignore r sa hc hr hi) rfl rfl rfl rfl hd
        (by simp [Act.returns, hc]) (by simp [Act.holds, hc, hr])
  · rename_i hr
    simp only [pure_ok] at h
    subst h
    exact .turns t a _ [] ht (.query r hc hr) rfl rfl rfl rfl hd
      (by simp [Act.returns, hc]) (by simp [Act.holds, hc, hr])
  · rename_i current hr
    simp only [pure_ok] at h
    subst h
    exact .turns t a _ [] ht (.reset r current hc hr) rfl rfl rfl rfl hd
      (by simp [Act.returns, hc]) (by simp [Act.holds, hc, hr])
  · rename_i current hr
    simp only at h
    split at h
    · simp only [pure_ok] at h
      exact .reenters t a r _ ht hc (Or.inr ⟨current, hr, rfl⟩) h.symm
    · simp only [pure_ok] at h
      subst h
      exact .turns t a _ [] ht (.kill r current hc hr) rfl rfl rfl rfl hd
        (by simp [Act.returns, hc]) (by simp [Act.holds, hc, hr])
  · rename_i current hr
    simp only [pure_ok] at h
    subst h
    exact .turns t a [] [] ht (.restore r current hc hr) rfl rfl rfl rfl hd
      (by simp [Act.returns, hc]) (by simp [Act.holds, hc, hr])
  · simp at h

theorem destroySection_moves {handle : Nat} {guarded : SigSet} {retp : List (Option Addr)}
    {todo : List Signo} {unlocked : Bool} (ht : s.top t = some a)
    (hc : a.call = .destroy handle guarded retp todo unlocked)
    (hd : Sections s act t a)
    (h : destroySection s a handle guarded retp todo unlocked (s.others t) = .ok s') :
    Moves p s act s' := by
  unfold destroySection at h
  split at h
  · simp only [pure_ok] at h
    subst h
    exact .turns t a [] [] ht (.destroyed handle guarded retp unlocked hc) rfl rfl rfl rfl hd
      (by simp [Act.returns, hc]) (by simp [Act.holds, hc])
  · split at h
    · rename_i hs
      split at h
      · simp at h
      · split at h
        · rename_i hul
          obtain ⟨g', op, h⟩ := bind_ok.mp h
          simp only [pure_ok] at h
          subst h hul
          exact .turns t a _ [] ht (.destroyUnlocked _ _ _ _ _ _ g' hc hs op) rfl rfl rfl rfl hd
            (by simp [Act.returns, hc]) (by simp [Act.holds, hc])
        · rename_i hul
          obtain ⟨⟨slot', g'⟩, op, h⟩ := bind_ok.mp h
          simp only [pure_ok] at h
          subst h
          rw [Bool.not_eq_true] at hul
          subst hul
          exact .turns t a _ [] ht (.destroyLocked _ _ _ slot' _ _ _ g' hc hs op) rfl rfl rfl rfl hd
            (by simp [Act.returns, hc]) (by simp [Act.holds, hc])
    · rename_i hs
      rw [Bool.not_eq_true] at hs
      obtain ⟨⟨slot', g'⟩, op, h⟩ := bind_ok.mp h
      simp only [pure_ok] at h
      subst h
      exact .turns t a _ [] ht (.destroySkip _ _ slot' _ _ _ _ g' hc hs op) rfl rfl rfl rfl hd
        (by simp [Act.returns, hc]) (by simp [Act.holds, hc])

theorem callSection_moves {env : InstallEnv} (ht : s.top t = some a)
    (h : callSection p env s a (s.others t) = .ok s') : Moves p s (.advance t env) s' := by
  have hd := Sections.advance ht env
  unfold callSection at h
  split at h
  · rename_i set done hc
    simp only [pure_ok] at h
    subst h
    exact .turns t a [] [] ht (.siginstalled set done hc) rfl rfl rfl rfl hd
      (by simp [Act.returns, hc]) (by simp [Act.holds, hc])
  · rename_i set done signo todo hc
    obtain ⟨⟨ok, g'⟩, op, h⟩ := bind_ok.mp h
    simp only [pure_ok] at h
    subst h
    exact .turns t a _ [] ht (.install set done signo todo env ok g' hc op) rfl rfl rfl rfl hd
      (by simp [Act.returns, hc]) (by simp [Act.holds, hc])
  · rename_i hc
    simp only [pure_ok] at h
    subst h
    exact .turns t a [] [] ht (.rolledBack hc) rfl rfl rfl rfl hd
      (by simp [Act.returns, hc]) (by simp [Act.holds, hc])
  · rename_i signo todo hc
    obtain ⟨g', op, h⟩ := bind_ok.mp h
    simp only [pure_ok] at h
    subst h
    exact .turns t a _ [] ht (.rollback signo todo g' hc op) rfl rfl rfl rfl hd
      (by simp [Act.returns, hc]) (by simp [Act.holds, hc])
  · rename_i hc
    simp only [pure_ok] at h
    subst h
    exact .turns t a [] [] ht (.siguninstalled hc) rfl rfl rfl rfl hd
      (by simp [Act.returns, hc]) (by simp [Act.holds, hc])
  · rename_i signo todo hc
    obtain ⟨g', op, h⟩ := bind_ok.mp h
    simp only [pure_ok] at h
    subst h
    exact .turns t a _ [] ht (.uninstall signo todo g' hc op) rfl rfl rfl rfl hd
      (by simp [Act.returns, hc]) (by simp [Act.holds, hc])
  · rename_i args filled hc
    unfold createSection at h
    split at h
    · simp only [pure_ok] at h
      subst h
      exact .turns t a [] [_] ht (.created args filled hc ‹_›) rfl rfl rfl rfl hd
        (by simp [Act.returns, hc]) (by simp [Act.holds, hc])
    · rename_i hdrop
      obtain ⟨⟨r, g'⟩, op, h⟩ := bind_ok.mp h
      cases r with
      | missing =>
        simp only [pure_ok] at h
        subst h
        exact .turns t a _ [] ht (.missing args filled _ _ env g' hc hdrop op) rfl rfl rfl rfl hd
          (by simp [Act.returns, hc]) (by simp [Act.holds, hc])
      | linked i =>
        simp only [pure_ok] at h
        subst h
        exact .turns t a _ [] ht (.create args filled _ _ env i g' hc hdrop op) rfl rfl rfl rfl hd
          (by simp [Act.returns, hc]) (by simp [Act.holds, hc])
      | outOfMemory =>
        simp only [pure_ok] at h
        subst h
        exact .turns t a _ [] ht (.giveUp args filled _ env g' hc op) rfl rfl rfl rfl hd
          (by simp [Act.returns, hc]) (by simp [Act.holds, hc])
  · rename_i handle guarded retp todo unlocked hc
    exact destroySection_moves ht hc hd h
  · simp at h
  · rename_i r hc
    exact raiseSection_moves ht hc hd h

theorem decideSection_moves {r : Raise} {d : Decision} (ht : s.top t = some a)
    (hc : a.call = .raise r) (h : decideSection s t a r d (s.others t) = .ok s') :
    Moves p s (.decide t d) s' := by
  unfold decideSection at h
  split at h
  · rename_i f fs hr
    have hd : Sections s (.decide t d) t a := .user (by simp [hc, Call.runsUserCode, hr]) rfl
    have hnext : Moves p s (.decide t d) { s with acts := a.phase r (.frames fs) :: s.others t } :=
      .turns t a _ [] ht (.nextFrame r f fs hc hr) rfl rfl rfl rfl hd
        (by simp [Act.returns, hc]) (by simp [Act.holds, hc, hr])
    cases d with
    | nextDecider =>
      simp only [pure_ok] at h
      subst h
      exact hnext
    | resumeExecution =>
      simp only [pure_ok] at h
      subst h
      exact .turns t a [] [] ht (.resumed r f fs hc hr) rfl rfl rfl rfl hd
        (by simp [Act.returns, hc]) (by simp [Act.holds, hc, hr])
    | callRecovery =>
      simp only at h
      split at h
      · simp only [pure_ok] at h
        exact .recovers t a r f fs ht rfl hc hr ‹_› h.symm
      · simp only [pure_ok] at h
        subst h
        exact hnext
  · rename_i pin hr
    have hd : Sections s (.decide t d) t a := .user (by simp [hc, Call.runsUserCode, hr]) rfl
    split at h
    · simp at h
    · rename_i hab
      rw [Bool.not_eq_true] at hab
      obtain ⟨⟨l, g'⟩, op, h⟩ := bind_ok.mp h
      cases l with
      | claimed =>
        simp only [pure_ok] at h
        subst h
        exact .turns t a [] [] ht (.claimed r pin _ g' hc hr hab op) rfl rfl rfl rfl hd
          (by simp [Act.returns, hc]) (fun _ _ => Or.inl ⟨d, rfl, by simp [Act.abandoned]⟩)
      | deciding current value =>
        simp only [pure_ok] at h
        subst h
        exact .turns t a _ [] ht (.walk r pin _ current value g' hc hr hab op) rfl rfl rfl rfl hd
          (by simp [Act.returns, hc])
          (fun _ _ => Or.inl ⟨d, rfl, by simp [Act.abandoned, Act.phase, Act.goto, hab]⟩)
      | unclaimed =>
        simp only [pure_ok] at h
        subst h
        exact .turns t a _ [] ht (.unclaimed r pin _ g' hc hr hab op) rfl rfl rfl rfl hd
          (by simp [Act.returns, hc]) (fun _ _ => Or.inl ⟨d, rfl, by simp [Act.abandoned, Act.phase, Act.goto]⟩)
  · simp at h

theorem step_moves (h : step p s act = .ok s') : Moves p s act s' := by
  cases act with
  | siginstall t guarded malloc =>
    simp only [step] at h
    split at h
    · split at h
      · simp only [pure_ok] at h
        exact .begins t _ s.installs (.siginstall _) h.symm
      · simp only [pure_ok] at h
        exact .idle h.symm
    · simp at h
  | siguninstall t handle =>
    simp only [step] at h
    split at h
    · rename_i handle' set _ hf
      simp only [pure_ok] at h
      have hid : handle' = handle := by simpa using List.find?_some hf
      subst hid
      exact .begins t _ _ (.siguninstall (handle', set) hf) h.symm
    · simp at h
  | create t guarded callfirst decider value malloc =>
    simp only [step] at h
    split at h
    · split at h
      · split at h
        · simp only [pure_ok] at h
          exact .idle h.symm
        · simp only [pure_ok] at h
          exact .begins t _ s.installs (.create _ rfl) h.symm
      · simp only [pure_ok] at h
        exact .idle h.symm
    · simp at h
  | destroy t handle =>
    simp only [step] at h
    split at h
    · rename_i hd _ hf
      simp only [pure_ok] at h
      have hid : hd.id = handle := by simpa using List.find?_some hf
      subst hid
      exact .destroys t hd hf h.symm rfl
    · simp at h
  | raise t signo =>
    simp only [step] at h
    split at h
    · simp only [pure_ok] at h
      exact .raises t signo false h.symm
    · simp at h
  | sigguarded t signals recovery =>
    simp only [step] at h
    split at h
    · simp only [pure_ok] at h
      exact .begins t _ s.installs (.guard signals recovery) h.symm
    · simp at h
  | deliver t signo =>
    simp only [step] at h
    split at h
    · simp only [pure_ok] at h
      exact .raises t signo true h.symm
    · simp at h
  | advance t env =>
    simp only [step] at h
    split at h
    · exact callSection_moves ‹_› h
    · simp at h
  | decide t d =>
    simp only [step] at h
    split at h
    · split at h
      · exact decideSection_moves ‹_› ‹_› h
      · simp at h
    · simp at h
  | abandon t =>
    simp only [step] at h
    split at h
    · rename_i a ht
      split at h
      · rename_i r hc
        split at h
        · rename_i pin hr
          split at h
          · simp only [pure_ok] at h
            exact .idle h.symm
          · rename_i hab
            rw [Bool.not_eq_true] at hab
            obtain ⟨g', op, h⟩ := bind_ok.mp h
            simp only [pure_ok] at h
            subst h
            exact .turns t a _ [] ht (.abandon r pin g' hc hr hab op) rfl rfl rfl rfl
              (.user (by simp [hc, Call.runsUserCode, hr]) rfl) (by simp [Act.returns, hc])
                (fun _ _ => Or.inr ⟨rfl, by simp [Act.abandoned, Act.phase, Act.goto]⟩)
        · simp at h
      · simp at h
    · simp at h
  | jump t =>
    simp only [step] at h
    split at h
    · rename_i a ht
      split at h
      · rename_i r hc
        split at h
        · rename_i pin hr
          split at h
          · simp only [pure_ok] at h
            subst h
            exact .turns t a [] [] ht (.jump r pin hc hr ‹_›) rfl rfl rfl rfl
              (.user (by simp [hc, Call.runsUserCode, hr]) rfl) (by simp [Act.returns, hc])
                (by simp [Act.holds, hc, hr, *])
          · simp at h
        · simp at h
      · simp at h
    · simp at h
  | done t =>
    simp only [step] at h
    split at h
    · rename_i a ht
      split at h
      · rename_i hc
        simp only [pure_ok] at h
        subst h
        exact .turns t a [] [] ht (.unguard _ _ hc) rfl rfl rfl rfl
          (.user (by simp [hc, Call.runsUserCode]) rfl) (by simp [Act.returns, hc])
            (by simp [Act.holds, hc])
      · rename_i r hc
        split at h
        · rename_i hr
          simp only [pure_ok] at h
          subst h
          exact .turns t a [] [] ht (.handled r _ hc hr) rfl rfl rfl rfl
            (.user (by simp [hc, Call.runsUserCode, hr]) rfl) (by simp [Act.returns, hc])
              (by simp [Act.holds, hc, hr])
        · simp at h
      · simp at h
    · simp at h

end

end Wg14Signals
