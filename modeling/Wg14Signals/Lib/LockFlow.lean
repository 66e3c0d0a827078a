import Wg14Signals.Lib.Runs

/-! What programs do with locks that are not recursive, where the code between two uses of a lock
is left out and the outcome of a test is open. -/

namespace Lib.LockFlow

/-- The control flow of a function over locks `L` and tests `T`. -/
inductive Stmt (L T : Type) where
  | skip
  | seq (a b : Stmt L T)
  | branch (t : T) (a b : Stmt L T)
  /-- As long as the test comes out true. -/
  | loop (t : T) (body : Stmt L T)
  | lock (l : L)
  | unlock (l : L)
  | call (body : Stmt L T)
  | ret
  /-- The body, and what runs instead of the rest of it after a `longjmp` back to here. -/
  | setjmp (body landing : Stmt L T)
  | longjmp
  /-- Code of the user runs, and may come back. -/
  | user
  /-- The process ends. -/
  | halt

/-- One after the other. -/
def Stmt.block {L T : Type} : List (Stmt L T) → Stmt L T
  | [] => .skip
  | s :: rest => .seq s (block rest)

def Stmt.when {L T : Type} (t : T) (a : Stmt L T) : Stmt L T := .branch t a .skip

def Stmt.doWhile {L T : Type} (body : Stmt L T) (t : T) : Stmt L T := .seq body (.loop t body)

/-- What a thread has still to do. -/
inductive Todo (L T : Type) where
  | run (s : Stmt L T)
  /-- The end of a call. -/
  | leave
  /-- The end of a `setjmp`. -/
  | target (landing : Stmt L T)
  /-- Code of the user, until it comes back. -/
  | user

/-- A thread, with the locks it holds. -/
structure Thread (L T : Type) where
  held : List L
  todo : List (Todo L T)

/-- A thread that has not called anything yet. -/
def Thread.initial {L T : Type} : Thread L T := ⟨[], [.user]⟩

/-- How the thread goes on. The code of the user calls the functions `C`. -/
inductive Act (C : Type) where
  | go
  | test (outcome : Bool)
  | enter (c : C)
  | back
  /-- A jump that leaves `n` items behind: of the user to code of his own, or a `longjmp`. -/
  | jump (n : Nat)

inductive Fault (L : Type) where
  /-- The lock is waited for by the thread that holds it. -/
  | spins (l : L)
  /-- The lock given back was not held. -/
  | unheld (l : L)
  | disabled
  deriving DecidableEq

section

variable {L T C : Type} [DecidableEq L]

/-- Is this inside the function that is running? -/
def Todo.inside : Todo L T → Bool
  | .run _ => true
  | .target _ => true
  | _ => false

def runStmt (held : List L) (s : Stmt L T) (k : List (Todo L T)) :
    Act C → Except (Fault L) (Thread L T)
  | .go =>
    match s with
    | .skip => pure ⟨held, k⟩
    | .seq a b => pure ⟨held, .run a :: .run b :: k⟩
    | .lock l => if l ∈ held then throw (.spins l) else pure ⟨l :: held, k⟩
    | .unlock l => if l ∈ held then pure ⟨held.erase l, k⟩ else throw (.unheld l)
    | .call body => pure ⟨held, .run body :: .leave :: k⟩
    | .ret => pure ⟨held, k.dropWhile Todo.inside⟩
    | .setjmp body landing => pure ⟨held, .run body :: .target landing :: k⟩
    | .user => pure ⟨held, .user :: k⟩
    | _ => throw .disabled
  | .test outcome =>
    match s with
    | .branch _ a b => pure ⟨held, .run (if outcome then a else b) :: k⟩
    | .loop t body => pure ⟨held, if outcome then .run body :: .run (.loop t body) :: k else k⟩
    | _ => throw .disabled
  | .jump n =>
    match s, k.drop n with
    | .longjmp, .target landing :: rest => pure ⟨held, .run landing :: rest⟩
    | _, _ => throw .disabled
  | _ => throw .disabled

def runUser (body : C → Stmt L T) (held : List L) (k : List (Todo L T)) :
    Act C → Except (Fault L) (Thread L T)
  | .enter c => pure ⟨held, .run (body c) :: .leave :: .user :: k⟩
  | .back => if k.isEmpty then throw .disabled else pure ⟨held, k⟩
  | .jump n =>
    match k.drop n with
    | .user :: rest => pure ⟨held, .user :: rest⟩
    | _ => throw .disabled
  | _ => throw .disabled

def step (body : C → Stmt L T) (th : Thread L T) (act : Act C) : Except (Fault L) (Thread L T) :=
  match th.todo, act with
  | .run s :: k, act => runStmt th.held s k act
  | .user :: k, act => runUser body th.held k act
  | _ :: k, .go => pure ⟨th.held, k⟩
  | _, _ => throw .disabled

/-- Performs the actions in order, and whatever goes on without one in between. -/
def follow (body : C → Stmt L T) : Nat → Thread L T → List (Act C) → Thread L T
  | 0, th, _ => th
  | n + 1, th, acts =>
    match step body th .go, acts with
    | .ok th', acts => follow body n th' acts
    | .error .disabled, act :: acts =>
      match step body th act with
      | .ok th' => follow body n th' acts
      | .error _ => th
    | .error _, _ => th

/-- A test that never comes out true does not. -/
def Respects (never : T → Bool) (th : Thread L T) : Act C → Prop
  | .test true => ∀ t a b k, th.todo = .run (.branch t a b) :: k → never t = false
  | _ => True

/-- No lock is waited for by the thread that holds it or given back without being held, and none
is held while code of the user runs or when a call ends, by its return or by a jump out of it. -/
structure Disciplined (body : C → Stmt L T) (th : Thread L T) : Prop where
  locks : ∀ act l, step body th act ≠ .error (.spins l)
  unlocks : ∀ act l, step body th act ≠ .error (.unheld l)
  user : ∀ k, th.todo = .user :: k → th.held = []
  returns : ∀ k, th.todo = .leave :: .user :: k → th.held = []
  jumps : ∀ k, th.todo = .run .longjmp :: k → th.held = []

/-- What the locks held must satisfy for a statement to keep the discipline and to end with `Q`,
where its function was entered with the locks `R`. -/
def Stmt.wp (never : T → Bool) (R : List L) : Stmt L T → (List L → Prop) → List L → Prop
  | .skip, Q, H => Q H
  | .seq a b, Q, H => a.wp never R (b.wp never R Q) H
  | .branch t a b, Q, H => (never t = false → a.wp never R Q H) ∧ b.wp never R Q H
  | .loop _ body, Q, H => body.wp never R (· = H) H ∧ Q H
  | .lock l, Q, H => l ∉ H ∧ Q (l :: H)
  | .unlock l, Q, H => l ∈ H ∧ Q (H.erase l)
  | .call body, Q, H => body.wp never H (· = H) H ∧ Q H
  | .ret, _, H => H = R
  | .setjmp body landing, Q, H => body.wp never R Q H ∧ landing.wp never R Q []
  | .longjmp, _, H => H = []
  | .user, Q, H => H = [] ∧ Q H
  | .halt, _, _ => True

/-- A function gives back exactly the locks it takes. -/
def Stmt.Keeps (never : T → Bool) (H : List L) (s : Stmt L T) : Prop := s.wp never H (· = H) H

/-- What is to be done can go on with the locks `H`, in a function entered with `R`. -/
def Ready (never : T → Bool) (R : List L) : List (Todo L T) → List L → Prop
  | [], H => H = []
  | .run s :: k, H => s.wp never R (Ready never R k) H
  | .leave :: _, H => H = R
  | .target _ :: k, H => Ready never R k H
  | .user :: _, H => H = []

/-- So can what it may come back to. -/
def Linked (never : T → Bool) : List (Todo L T) → List L → Prop
  | [], R => R = []
  | .run _ :: k, R => Linked never k R
  | .leave :: k, R => ∃ R', Ready never R' k R ∧ Linked never k R'
  | .target landing :: k, R => landing.wp never R (Ready never R k) [] ∧ Linked never k R
  | .user :: k, R => R = [] ∧ ∃ R', Ready never R' k [] ∧ Linked never k R'

variable {never : T → Bool} {R H : List L} {body : C → Stmt L T} {th th' : Thread L T}
  {act : Act C} {k : List (Todo L T)} {s : Stmt L T} {Q Q' : List L → Prop}

@[simp]
theorem Stmt.wp_skip : (Stmt.skip : Stmt L T).wp never R Q H ↔ Q H := Iff.rfl

@[simp]
theorem Stmt.wp_seq {a b : Stmt L T} :
    (Stmt.seq a b).wp never R Q H ↔ a.wp never R (b.wp never R Q) H := Iff.rfl

@[simp]
theorem Stmt.wp_branch {t : T} {a b : Stmt L T} : (Stmt.branch t a b).wp never R Q H ↔
    (never t = false → a.wp never R Q H) ∧ b.wp never R Q H := Iff.rfl

/-- The locks held are the invariant of every loop. -/
@[simp]
theorem Stmt.wp_loop {t : T} :
    (Stmt.loop t s).wp never R Q H ↔ s.wp never R (· = H) H ∧ Q H := Iff.rfl

@[simp]
theorem Stmt.wp_lock {l : L} :
    (Stmt.lock l : Stmt L T).wp never R Q H ↔ l ∉ H ∧ Q (l :: H) := Iff.rfl

@[simp]
theorem Stmt.wp_unlock {l : L} :
    (Stmt.unlock l : Stmt L T).wp never R Q H ↔ l ∈ H ∧ Q (H.erase l) := Iff.rfl

@[simp]
theorem Stmt.wp_call : (Stmt.call s).wp never R Q H ↔ s.Keeps never H ∧ Q H := Iff.rfl

@[simp]
theorem Stmt.wp_ret : (Stmt.ret : Stmt L T).wp never R Q H ↔ H = R := Iff.rfl

@[simp]
theorem Stmt.wp_setjmp {landing : Stmt L T} : (Stmt.setjmp s landing).wp never R Q H ↔
    s.wp never R Q H ∧ landing.wp never R Q [] := Iff.rfl

@[simp]
theorem Stmt.wp_longjmp : (Stmt.longjmp : Stmt L T).wp never R Q H ↔ H = [] := Iff.rfl

@[simp]
theorem Stmt.wp_user : (Stmt.user : Stmt L T).wp never R Q H ↔ H = [] ∧ Q H := Iff.rfl

@[simp]
theorem Stmt.wp_halt : (Stmt.halt : Stmt L T).wp never R Q H ↔ True := Iff.rfl

@[simp]
theorem Stmt.wp_block_nil : (Stmt.block [] : Stmt L T).wp never R Q H ↔ Q H := Iff.rfl

@[simp]
theorem Stmt.wp_block_cons {l : List (Stmt L T)} :
    (Stmt.block (s :: l)).wp never R Q H ↔ s.wp never R ((Stmt.block l).wp never R Q) H := Iff.rfl

@[simp]
theorem Stmt.wp_when {t : T} : (Stmt.when t s).wp never R Q H ↔
    (never t = false → s.wp never R Q H) ∧ Q H := Iff.rfl

@[simp]
theorem Stmt.wp_doWhile {t : T} : (Stmt.doWhile s t).wp never R Q H ↔
    s.wp never R (fun H => s.wp never R (· = H) H ∧ Q H) H := Iff.rfl

theorem Stmt.wp_mono (h : s.wp never R Q H) (hq : ∀ H, Q H → Q' H) : s.wp never R Q' H := by
  induction s generalizing Q Q' H with
  | skip => exact hq H h
  | seq a b iha ihb => exact iha h fun H' hb => ihb hb hq
  | branch t a b iha ihb => exact ⟨fun ht => iha (h.1 ht) hq, ihb h.2 hq⟩
  | loop t body ih => exact ⟨h.1, hq H h.2⟩
  | lock l => exact ⟨h.1, hq _ h.2⟩
  | unlock l => exact ⟨h.1, hq _ h.2⟩
  | call body ih => exact ⟨h.1, hq H h.2⟩
  | ret => exact h
  | setjmp body landing ihb ihl => exact ⟨ihb h.1 hq, ihl h.2 hq⟩
  | longjmp => exact h
  | user => exact ⟨h.1, hq H h.2⟩
  | halt => trivial

theorem Linked.suffix {pre : List (Todo L T)} (h : Linked never (pre ++ k) R) :
    ∃ R', Linked never k R' := by
  induction pre generalizing R with
  | nil => exact ⟨R, h⟩
  | cons i pre ih =>
    cases i with
    | run s => exact ih h
    | leave =>
      obtain ⟨R', -, h⟩ := h
      exact ih h
    | target landing => exact ih h.2
    | user =>
      obtain ⟨-, R', -, h⟩ := h
      exact ih h

theorem Linked.drop (h : Linked never k R) (n : Nat) : ∃ R', Linked never (k.drop n) R' := by
  rw [← List.take_append_drop n k] at h
  exact h.suffix

/-- A return leads to the end of the call. -/
theorem Linked.returns (h : Linked never k R) :
    Ready never R (k.dropWhile Todo.inside) R ∧ Linked never (k.dropWhile Todo.inside) R := by
  induction k with
  | nil => exact ⟨h, h⟩
  | cons i k ih =>
    cases i with
    | run s => exact ih h
    | leave => exact ⟨rfl, h⟩
    | target landing => exact ih h.2
    | user => exact ⟨h.1, h⟩

/-- The thread can go on whatever the outcome of its tests. -/
def Thread.Fits (never : T → Bool) (th : Thread L T) : Prop :=
  ∃ R, Ready never R th.todo th.held ∧ Linked never th.todo R

theorem Thread.Fits.initial : (Thread.initial : Thread L T).Fits never :=
  ⟨[], rfl, rfl, [], rfl, rfl⟩

/-- The rule for one statement. -/
theorem runStmt_fits (hw : s.wp never R (Ready never R k) H) (hl : Linked never k R)
    (ha : Respects never ⟨H, .run s :: k⟩ act) (hs : runStmt H s k act = .ok th) :
    th.Fits never := by
  cases act with
  | go =>
    cases s with
    | skip =>
      cases hs
      exact ⟨R, hw, hl⟩
    | seq a b =>
      cases hs
      exact ⟨R, hw, hl⟩
    | lock l =>
      simp only [runStmt, if_neg hw.1] at hs
      cases hs
      exact ⟨R, hw.2, hl⟩
    | unlock l =>
      simp only [runStmt, if_pos hw.1] at hs
      cases hs
      exact ⟨R, hw.2, hl⟩
    | call body =>
      cases hs
      exact ⟨H, hw.1, R, hw.2, hl⟩
    | ret =>
      cases hs
      obtain rfl : H = R := hw
      exact ⟨H, hl.returns⟩
    | setjmp body landing =>
      cases hs
      exact ⟨R, hw.1, hw.2, hl⟩
    | user =>
      cases hs
      obtain ⟨rfl, hw⟩ := hw
      exact ⟨[], rfl, rfl, R, hw, hl⟩
    | branch t a b => cases hs
    | loop t body => cases hs
    | longjmp => cases hs
    | halt => cases hs
  | test outcome =>
    cases s with
    | branch t a b =>
      cases hs
      cases outcome with
      | true => exact ⟨R, hw.1 (ha t a b k rfl), hl⟩
      | false => exact ⟨R, hw.2, hl⟩
    | loop t body =>
      cases hs
      cases outcome with
      | true =>
        -- whenever the body ends, the loop is as it was
        refine ⟨R, Stmt.wp_mono hw.1 fun H' hH => ?_, hl⟩
        rw [hH]
        exact hw
      | false => exact ⟨R, hw.2, hl⟩
    | skip => cases hs
    | seq a b => cases hs
    | lock l => cases hs
    | unlock l => cases hs
    | call body => cases hs
    | ret => cases hs
    | setjmp body landing => cases hs
    | longjmp => cases hs
    | user => cases hs
    | halt => cases hs
  | jump n =>
    simp only [runStmt] at hs
    split at hs
    · rename_i landing rest hk
      cases hs
      obtain rfl : H = [] := hw
      obtain ⟨R', hl'⟩ := hl.drop n
      rw [hk] at hl'
      exact ⟨R', hl'.1, hl'.2⟩
    · cases hs
  | enter c => cases hs
  | back => cases hs

/-- Code of the user runs without locks, and calls functions that keep the discipline. -/
theorem runUser_fits (hb : ∀ c, (body c).Keeps never []) (hl : Linked never (.user :: k) R)
    (hs : runUser body [] k act = .ok th) : th.Fits never := by
  obtain ⟨-, R', hr, hk⟩ := hl
  cases act with
  | enter c =>
    cases hs
    exact ⟨[], hb c, [], rfl, rfl, R', hr, hk⟩
  | back =>
    simp only [runUser] at hs
    split at hs
    · cases hs
    · cases hs
      exact ⟨R', hr, hk⟩
  | jump n =>
    simp only [runUser] at hs
    split at hs
    · rename_i rest hd
      cases hs
      obtain ⟨R'', hl'⟩ := hk.drop n
      rw [hd] at hl'
      obtain ⟨rfl, hl'⟩ := hl'
      exact ⟨[], rfl, rfl, hl'⟩
    · cases hs
  | go => cases hs
  | test outcome => cases hs

theorem Thread.Fits.step (h : th.Fits never) (hb : ∀ c, (body c).Keeps never [])
    (ha : Respects never th act) (hs : LockFlow.step body th act = .ok th') : th'.Fits never := by
  obtain ⟨held, todo⟩ := th
  obtain ⟨R, hr, hl⟩ := h
  cases todo with
  | nil => cases act <;> cases hs
  | cons i k =>
    cases i with
    | run s => exact runStmt_fits hr hl ha hs
    | user =>
      obtain rfl : held = [] := hr
      exact runUser_fits hb hl hs
    | leave =>
      obtain ⟨R', hr', hk⟩ := hl
      obtain rfl : held = R := hr
      cases act with
      | go =>
        cases hs
        exact ⟨R', hr', hk⟩
      | _ => cases hs
    | target landing =>
      cases act with
      | go =>
        cases hs
        exact ⟨R, hr, hl.2⟩
      | _ => cases hs

theorem runStmt_error {e : Fault L} (hw : s.wp never R Q H)
    (hs : runStmt H s k act = .error e) : e = .disabled := by
  unfold runStmt at hs
  split at hs
  · split at hs
    · cases hs
    · cases hs
    · rw [if_neg hw.1] at hs
      cases hs
    · rw [if_pos hw.1] at hs
      cases hs
    · cases hs
    · cases hs
    · cases hs
    · cases hs
    · cases hs
      rfl
  · split at hs
    · cases hs
    · cases hs
    · cases hs
      rfl
  · split at hs
    · cases hs
    · cases hs
      rfl
  · cases hs
    rfl

omit [DecidableEq L] in
theorem runUser_error {e : Fault L} (hs : runUser body H k act = .error e) : e = .disabled := by
  unfold runUser at hs
  split at hs
  · cases hs
  · split at hs
    · cases hs
      rfl
    · cases hs
  · split at hs
    · cases hs
    · cases hs
      rfl
  · cases hs
    rfl

theorem Thread.Fits.error {e : Fault L} (h : th.Fits never)
    (hs : LockFlow.step body th act = .error e) : e = .disabled := by
  obtain ⟨R, hr, -⟩ := h
  unfold LockFlow.step at hs
  split at hs
  · rename_i s k hk
    rw [hk] at hr
    exact runStmt_error hr hs
  · exact runUser_error hs
  · cases hs
  · cases hs
    rfl

theorem Thread.Fits.disciplined (h : th.Fits never) : Disciplined body th where
  locks act l hs := by
    cases h.error hs
  unlocks act l hs := by
    cases h.error hs
  user k hk := by
    obtain ⟨R, hr, -⟩ := h
    rw [hk] at hr
    exact hr
  returns k hk := by
    obtain ⟨R, hr, hl⟩ := h
    rw [hk] at hr hl
    obtain ⟨R', hr', -⟩ := hl
    exact Eq.trans hr hr'
  jumps k hk := by
    obtain ⟨R, hr, -⟩ := h
    rw [hk] at hr
    exact hr

theorem run_follow (n : Nat) (th : Thread L T) (acts : List (Act C)) :
    Run (LockFlow.step body) (fun _ _ => True) th (follow body n th acts) := by
  induction n generalizing th acts with
  | zero => exact .refl th
  | succ n ih =>
    unfold follow
    cases hs : LockFlow.step body th .go with
    | ok th' => exact (Run.tail .go (.refl th) trivial hs).trans (ih th' acts)
    | error e =>
      cases acts with
      | nil => cases e <;> exact .refl th
      | cons act acts =>
        cases e with
        | disabled =>
          cases hs' : LockFlow.step body th act with
          | ok th' =>
            simp only [hs']
            exact (Run.tail act (.refl th) trivial hs').trans (ih th' acts)
          | error e =>
            simp only [hs']
            exact .refl th
        | spins l => exact .refl th
        | unheld l => exact .refl th

/-- Where every function keeps the discipline, the thread does in every run. -/
theorem run_disciplined (hb : ∀ c, (body c).Keeps never [])
    (hr : Run (LockFlow.step body) (Respects never) .initial th) : Disciplined body th :=
  (hr.invariant Thread.Fits.initial fun _ _ _ h ha hs => h.step hb ha hs).disciplined

end

end Lib.LockFlow
