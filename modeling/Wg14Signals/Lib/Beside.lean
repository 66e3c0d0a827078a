import Wg14Signals.Lib.DList

namespace Lib

namespace Heap

variable {α ε : Type} {trap : Option Addr → ε} {h h' : Heap α} {φ f : α → α} {p q : Option Addr}

theorem mapAt_comm (hf : ∀ a, f (φ a) = φ (f a)) (p q : Option Addr) :
    (h.mapAt p φ).mapAt q f = (h.mapAt q f).mapAt p φ := by
  funext b
  unfold mapAt
  cases h b with
  | none => split <;> split <;> rfl
  | some a => split <;> split <;> simp [hf]

/-- What is read is there without the change as well, and changed if it is at that address. -/
theorem read_mapAt {a : α} (hr : (h.mapAt p φ).read trap q = .ok a) :
    ∃ b, h.read trap q = .ok b ∧ a = if q = p then φ b else b := by
  obtain ⟨x, rfl, ha⟩ := read_ok.mp hr
  by_cases hx : some x = p
  · subst hx
    rw [mapAt_self] at ha
    obtain ⟨b, hb, rfl⟩ := Option.map_eq_some_iff.mp ha
    exact ⟨b, read_some hb, (if_pos rfl).symm⟩
  · rw [mapAt_other h φ hx] at ha
    exact ⟨a, read_some ha, (if_neg hx).symm⟩

theorem update_mapAt (hf : ∀ a, f (φ a) = φ (f a))
    (hu : (h.mapAt p φ).update trap q f = .ok h') :
    ∃ h₁, h.update trap q f = .ok h₁ ∧ h' = h₁.mapAt p φ := by
  obtain ⟨a, hr, hu⟩ := bind_ok.mp hu
  obtain rfl := pure_ok.mp hu
  obtain ⟨b, hb, -⟩ := read_mapAt hr
  exact ⟨h.mapAt q f, bind_ok.mpr ⟨b, hb, rfl⟩, mapAt_comm hf p q⟩

theorem set_mapAt (h : Heap α) (φ : α → α) (a b : Addr) (v : α) :
    (h.mapAt (some a) φ).set b (some (if b = a then φ v else v)) =
      (h.set b (some v)).mapAt (some a) φ := by
  funext x
  by_cases hx : x = b
  · subst hx
    by_cases ha : x = a
    · subst ha
      simp
    · rw [set_self, mapAt_other _ _ (by simpa using ha), set_self, if_neg ha]
  · rw [set_other _ _ hx]
    unfold mapAt
    rw [set_other _ _ hx]

theorem set_map {h : Heap α} {a : Addr} {v : α} (ha : h a = some v) (φ : α → α) :
    h.set a (some (φ v)) = h.mapAt (some a) φ := by
  funext x
  by_cases hx : x = a
  · subst hx
    simp [ha]
  · rw [set_other _ _ hx, mapAt_other _ _ (by simpa using hx)]

end Heap

namespace DList
open Linked

variable {α ε : Type} [Linked α] {trap : Option Addr → ε} {assertion : ε} {h h' : Heap α}
  {e e' : Ends} {x : Addr} {φ : α → α} {p : Option Addr}

/-- A change of data that has nothing to do with the list pointers. -/
structure Beside (φ : α → α) : Prop where
  links : ∀ a, links (φ a) = links a
  setLinks : ∀ l a, setLinks (φ a) l = φ (setLinks a l)

namespace Beside

theorem setPrev (hφ : Beside φ) (q : Option Addr) (a : α) :
    DList.setPrev q (φ a) = φ (DList.setPrev q a) := by
  rw [DList.setPrev, hφ.links, hφ.setLinks, DList.setPrev]

theorem setNext (hφ : Beside φ) (q : Option Addr) (a : α) :
    DList.setNext q (φ a) = φ (DList.setNext q a) := by
  rw [DList.setNext, hφ.links, hφ.setLinks, DList.setNext]

/-- List surgery does the same before such a change and after it. -/
theorem splice (hφ : Beside φ) (hs : DList.splice trap (h.mapAt p φ) e x = .ok (h', e')) :
    ∃ h₁, DList.splice trap h e x = .ok (h₁, e') ∧ h' = h₁.mapAt p φ := by
  have same : ∀ {a b : α}, a = (if some x = p then φ b else b) →
      Linked.links a = Linked.links b := by
    rintro a b rfl
    split
    · exact hφ.links b
    · rfl
  unfold DList.splice at hs ⊢
  split at hs
  · rename_i hc
    obtain ⟨rfl, rfl⟩ := Prod.mk.inj (pure_ok.mp hs)
    exact ⟨h, if_pos hc, rfl⟩
  · rename_i hc
    rw [if_neg hc]
    split at hs
    · rename_i hf
      obtain ⟨a, ha, hs⟩ := bind_ok.mp hs
      obtain ⟨b, hb, hab⟩ := Heap.read_mapAt ha
      obtain ⟨h₂, hu, hs⟩ := bind_ok.mp hs
      obtain ⟨rfl, rfl⟩ := Prod.mk.inj (pure_ok.mp hs)
      rw [same hab] at hu ⊢
      obtain ⟨h₁, hu₁, rfl⟩ := Heap.update_mapAt (hφ.setPrev none) hu
      exact ⟨h₁, (if_pos hf).trans (bind_ok.mpr ⟨b, hb, bind_ok.mpr ⟨h₁, hu₁, rfl⟩⟩), rfl⟩
    · rename_i hf
      rw [if_neg hf]
      split at hs
      · rename_i hk
        obtain ⟨a, ha, hs⟩ := bind_ok.mp hs
        obtain ⟨b, hb, hab⟩ := Heap.read_mapAt ha
        obtain ⟨h₂, hu, hs⟩ := bind_ok.mp hs
        obtain ⟨rfl, rfl⟩ := Prod.mk.inj (pure_ok.mp hs)
        rw [same hab] at hu ⊢
        obtain ⟨h₁, hu₁, rfl⟩ := Heap.update_mapAt (hφ.setNext none) hu
        exact ⟨h₁, (if_pos hk).trans (bind_ok.mpr ⟨b, hb, bind_ok.mpr ⟨h₁, hu₁, rfl⟩⟩), rfl⟩
      · rename_i hk
        obtain ⟨a, ha, hs⟩ := bind_ok.mp hs
        obtain ⟨b, hb, hab⟩ := Heap.read_mapAt ha
        obtain ⟨h₂, hu₂, hs⟩ := bind_ok.mp hs
        obtain ⟨h₃, hu₃, hs⟩ := bind_ok.mp hs
        obtain ⟨rfl, rfl⟩ := Prod.mk.inj (pure_ok.mp hs)
        rw [same hab] at hu₂ hu₃
        obtain ⟨h₁, hu₁, rfl⟩ := Heap.update_mapAt (hφ.setPrev _) hu₂
        obtain ⟨h₂', hu₂', rfl⟩ := Heap.update_mapAt (hφ.setNext _) hu₃
        exact ⟨h₂', (if_neg hk).trans (bind_ok.mpr ⟨b, hb, bind_ok.mpr ⟨h₁, hu₁,
          bind_ok.mpr ⟨h₂', hu₂', rfl⟩⟩⟩), rfl⟩

theorem remove (hφ : Beside φ) (hs : DList.remove trap (h.mapAt p φ) e x = .ok (h', e')) :
    ∃ h₁, DList.remove trap h e x = .ok (h₁, e') ∧ h' = h₁.mapAt p φ := by
  obtain ⟨⟨h₂, e₂⟩, hsplice, hs⟩ := bind_ok.mp hs
  obtain ⟨h₃, hu, hs⟩ := bind_ok.mp hs
  obtain ⟨rfl, rfl⟩ := Prod.mk.inj (pure_ok.mp hs)
  obtain ⟨h₁, hs₁, rfl⟩ := hφ.splice hsplice
  obtain ⟨h₃, hu₃, rfl⟩ := Heap.update_mapAt (hφ.setLinks {}) hu
  exact ⟨h₃, bind_ok.mpr ⟨_, hs₁, bind_ok.mpr ⟨h₃, hu₃, rfl⟩⟩, rfl⟩

theorem insertBack (hφ : Beside φ)
    (hs : DList.insertBack trap assertion (h.mapAt p φ) e x = .ok (h', e')) :
    ∃ h₁, DList.insertBack trap assertion h e x = .ok (h₁, e') ∧ h' = h₁.mapAt p φ := by
  unfold DList.insertBack at hs ⊢
  split at hs
  · split at hs
    · rename_i hf hb
      obtain ⟨rfl, rfl⟩ := Prod.mk.inj (pure_ok.mp hs)
      exact ⟨h, if_pos hb, rfl⟩
    · cases throw_ok hs
  · split at hs
    · cases throw_ok hs
    · rename_i hf hb
      obtain ⟨h₂, hu₂, hs⟩ := bind_ok.mp hs
      obtain ⟨h₃, hu₃, hs⟩ := bind_ok.mp hs
      obtain ⟨rfl, rfl⟩ := Prod.mk.inj (pure_ok.mp hs)
      obtain ⟨h₁, hu₁, rfl⟩ := Heap.update_mapAt (hφ.setLinks _) hu₂
      obtain ⟨h₂', hu₂', rfl⟩ := Heap.update_mapAt (hφ.setNext _) hu₃
      exact ⟨h₂', (if_neg hb).trans (bind_ok.mpr ⟨h₁, hu₁, bind_ok.mpr ⟨h₂', hu₂', rfl⟩⟩), rfl⟩

end Beside

end DList
end Lib
