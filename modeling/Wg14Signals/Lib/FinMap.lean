import Mathlib.Data.List.Basic
import Mathlib.Data.List.Nodup

namespace Lib

/-- A finite map together with the order in which an iterator visits its keys. -/
structure FinMap (κ ν : Type) where
  get : κ → Option ν
  order : List κ
  nodup : order.Nodup
  mem_order : ∀ k, k ∈ order ↔ ∃ v, get k = some v

namespace FinMap

variable {κ ν : Type} [DecidableEq κ]

def empty : FinMap κ ν where
  get := fun _ => none
  order := []
  nodup := .nil
  mem_order := by simp

/-- Where a new key stands among the others: anywhere. -/
def place (order : List κ) (k : κ) (pos : Nat) : List κ :=
  if k ∈ order then order else order.insertIdx (min pos order.length) k

theorem mem_place (order : List κ) (k j : κ) (pos : Nat) :
    j ∈ place order k pos ↔ j = k ∨ j ∈ order := by
  unfold place
  split
  · rename_i hk
    exact ⟨Or.inr, fun h => h.elim (fun e => e ▸ hk) id⟩
  · rw [(List.perm_insertIdx k order (Nat.min_le_right _ _)).mem_iff, List.mem_cons]

theorem nodup_place {order : List κ} (h : order.Nodup) (k : κ) (pos : Nat) :
    (place order k pos).Nodup := by
  unfold place
  split
  · exact h
  · rename_i hk
    rw [(List.perm_insertIdx k order (Nat.min_le_right _ _)).nodup_iff]
    exact List.nodup_cons.mpr ⟨hk, h⟩

/-- Insert a key, or replace the value it has. -/
def insert (m : FinMap κ ν) (k : κ) (v : ν) (pos : Nat) : FinMap κ ν where
  get := fun j => if j = k then some v else m.get j
  order := place m.order k pos
  nodup := nodup_place m.nodup k pos
  mem_order j := by
    rw [mem_place, m.mem_order]
    by_cases hj : j = k <;> simp [hj]

def erase (m : FinMap κ ν) (k : κ) : FinMap κ ν where
  get := fun j => if j = k then none else m.get j
  order := m.order.erase k
  nodup := m.nodup.erase k
  mem_order j := by
    rw [m.nodup.mem_erase_iff, m.mem_order]
    by_cases hj : j = k <;> simp [hj]

/-- The iterator of a traversal: the key it stands at, or the end. -/
def first (m : FinMap κ ν) : Option κ := m.order.head?

/-- The key visited after `k`. -/
def next (m : FinMap κ ν) (k : κ) : Option κ := (m.order.dropWhile fun j => j ≠ k).tail.head?

theorem get_insert (m : FinMap κ ν) (k j : κ) (v : ν) (pos : Nat) :
    (m.insert k v pos).get j = if j = k then some v else m.get j := rfl

theorem get_erase (m : FinMap κ ν) (k j : κ) :
    (m.erase k).get j = if j = k then none else m.get j := rfl

@[simp] theorem get_insert_self (m : FinMap κ ν) (k : κ) (v : ν) (pos : Nat) :
    (m.insert k v pos).get k = some v := if_pos rfl

@[simp] theorem get_erase_self (m : FinMap κ ν) (k : κ) : (m.erase k).get k = none := if_pos rfl

/-- An entry left by an erasure was there before, under another key. -/
theorem get_of_erase {m : FinMap κ ν} {k j : κ} {v : ν} (h : (m.erase k).get j = some v) :
    j ≠ k ∧ m.get j = some v := by
  rw [get_erase] at h
  split at h
  · cases h
  · exact ⟨‹_›, h⟩

/-- An entry left by an insertion is the new one, or was there under another key. -/
theorem get_of_insert {m : FinMap κ ν} {k j : κ} {v w : ν} {pos : Nat}
    (h : (m.insert k v pos).get j = some w) : (j = k ∧ w = v) ∨ (j ≠ k ∧ m.get j = some w) := by
  rw [get_insert] at h
  split at h
  · exact .inl ⟨‹_›, (Option.some.inj h).symm⟩
  · exact .inr ⟨‹_›, h⟩

theorem ext_of {m n : FinMap κ ν} (hg : m.get = n.get) (ho : m.order = n.order) : m = n := by
  cases m
  cases n
  simp_all

theorem erase_insertIdx {k : κ} (pos : Nat) :
    ∀ {l : List κ}, k ∉ l → pos ≤ l.length → (l.insertIdx pos k).erase k = l := by
  induction pos with
  | zero => intro l _ _; simp
  | succ pos ih =>
    intro l hk hp
    cases l with
    | nil => simp at hp
    | cons j l =>
      obtain ⟨hj, hk⟩ := not_or.mp (fun h => hk (List.mem_cons.mpr h))
      rw [List.insertIdx_succ_cons, List.erase_cons_tail (by simpa using Ne.symm hj),
        ih hk (Nat.le_of_succ_le_succ hp)]

/-- Erasing a new key undoes its insertion. -/
theorem erase_insert {m : FinMap κ ν} {k : κ} (h : m.get k = none) (v : ν) (pos : Nat) :
    (m.insert k v pos).erase k = m := by
  have hk : k ∉ m.order := fun hm => by
    obtain ⟨w, hw⟩ := (m.mem_order k).mp hm
    rw [h] at hw
    cases hw
  refine ext_of (funext fun j => ?_) ?_
  · rw [get_erase, get_insert]
    split
    · rename_i hj
      rw [hj, h]
    · rfl
  · simp only [erase, insert, place, if_neg hk]
    exact erase_insertIdx _ hk (Nat.min_le_right _ _)

/-- A traversal that erases what it visits goes on where it began. -/
theorem first_erase {m : FinMap κ ν} {k : κ} (h : m.first = some k) :
    (m.erase k).first = m.next k := by
  obtain ⟨ks, hk⟩ := List.head?_eq_some_iff.mp h
  simp [first, next, erase, hk]

/-- A traversal that is over has visited everything. -/
theorem get_of_first_none {m : FinMap κ ν} (h : m.first = none) (k : κ) : m.get k = none := by
  have ho : m.order = [] := List.head?_eq_none_iff.mp h
  refine Option.eq_none_iff_forall_not_mem.mpr fun v hv => ?_
  have hk := (m.mem_order k).mpr ⟨v, hv⟩
  simp [ho] at hk

/-- A map without entries is the empty one. -/
theorem eq_empty {m : FinMap κ ν} (h : ∀ k, m.get k = none) : m = .empty := by
  have horder : m.order = [] := by
    apply List.eq_nil_iff_forall_not_mem.mpr
    intro k hk
    obtain ⟨v, hv⟩ := (m.mem_order k).mp hk
    cases (h k).symm.trans hv
  exact ext_of (funext h) horder

/-- A new key can be put back to where it has been erased. -/
theorem insertIdx_erase {k : κ} :
    ∀ {l : List κ}, k ∈ l → (l.erase k).insertIdx (l.idxOf k) k = l := by
  intro l
  induction l with
  | nil => intro hk; cases hk
  | cons j l ih =>
    intro hk
    by_cases hj : j = k
    · subst hj
      simp
    · have hl : k ∈ l := (List.mem_cons.mp hk).resolve_left (Ne.symm hj)
      rw [List.erase_cons_tail (by simpa using hj), List.idxOf_cons_ne _ hj,
        List.insertIdx_succ_cons, ih hl]

/-- Every map with the entries that an insertion leaves is what some insertion leaves. -/
theorem exists_insert {M : FinMap κ ν} {get : κ → Option ν} {k : κ} {v : ν}
    (h : M.get = fun j => if j = k then some v else get j) :
    ∃ (m : FinMap κ ν) (pos : Nat), m.get = get ∧ m.insert k v pos = M := by
  have hk : k ∈ M.order := (M.mem_order k).mpr ⟨v, by rw [h]; exact if_pos rfl⟩
  cases hget : get k with
  | none =>
    refine ⟨M.erase k, M.order.idxOf k, funext fun j => ?_, ext_of ?_ ?_⟩
    · by_cases hj : j = k
      · rw [get_erase, if_pos hj, hj, hget]
      · rw [get_erase, if_neg hj, h]
        exact if_neg hj
    · funext j
      rw [get_insert, get_erase, h]
      by_cases hj : j = k <;> simp [hj]
    · have hnot : k ∉ M.order.erase k := M.nodup.not_mem_erase
      have hlen : M.order.idxOf k ≤ (M.order.erase k).length := by
        rw [List.length_erase_of_mem hk]
        have := List.idxOf_lt_length_of_mem hk
        omega
      simp only [insert, erase, place, if_neg hnot, Nat.min_eq_left hlen]
      exact insertIdx_erase hk
  | some w =>
    have hmem : ∀ j, j ∈ M.order ↔ ∃ u, get j = some u := by
      intro j
      rw [M.mem_order, h]
      by_cases hj : j = k
      · simp [hj, hget]
      · simp [hj]
    refine ⟨⟨get, M.order, M.nodup, hmem⟩, 0, rfl, ext_of ?_ ?_⟩
    · rw [h]
      rfl
    · exact if_pos hk

/-- Every map with the entries that an erasure leaves is what some erasure leaves, the key
erased having been the first one. -/
theorem exists_erase {M : FinMap κ ν} {get : κ → Option ν} {k : κ}
    (h : M.get = fun j => if j = k then none else get j) :
    ∃ m : FinMap κ ν, m.get = get ∧ m.erase k = M ∧
      ∀ v, get k = some v → m.order = k :: M.order := by
  have habsent : M.get k = none := by
    rw [h]
    exact if_pos rfl
  have hk : k ∉ M.order := by
    intro hk
    obtain ⟨v, hv⟩ := (M.mem_order k).mp hk
    cases habsent.symm.trans hv
  cases hget : get k with
  | none =>
    have hsame : M.get = get := by
      funext j
      rw [h]
      by_cases hj : j = k
      · exact (if_pos hj).trans (hj ▸ hget.symm)
      · exact if_neg hj
    refine ⟨M, hsame, ext_of ?_ ?_, fun v hv => by cases hv⟩
    · funext j
      rw [get_erase, h]
      by_cases hj : j = k <;> simp [hj]
    · exact List.erase_of_not_mem hk
  | some w =>
    refine ⟨M.insert k w 0, ?_, erase_insert habsent w 0, fun v _ => ?_⟩
    · funext j
      rw [get_insert, h]
      by_cases hj : j = k
      · rw [if_pos hj, hj, hget]
      · simp [hj]
    · simp [insert, place, hk]

end FinMap

end Lib
