/-
# Computations that succeed

What the parts of a computation came to, given that the whole of it has a result.

* A sequence of two steps succeeds only if both do (`exists_of_bind`).
* A map with effects gives one result for each element of the list (`mapM_spec`,
  `exists_of_mapM`), and a filter with effects keeps what passes (`of_mem_filterM`).
* Where every element gives something the map gives all of it (`mapM_ok`, `exists_mapM`), and it
  does not matter what the effects are outside of the list (`mapM_congr`).
-/
import Mathlib

namespace Graded

variable {β γ ε : Type}

/-! ## 1. From the whole to its parts -/

theorem exists_of_bind {x : Except ε β} {f : β → Except ε γ} {c : γ} (h : x >>= f = .ok c) :
    ∃ b, x = .ok b ∧ f b = .ok c := by
  cases x with
  | error e => cases h
  | ok b => exact ⟨b, rfl, h⟩

theorem mapM_spec {f : β → Except ε γ} {l : List β} {r : List γ} (h : l.mapM f = .ok r) :
    r.length = l.length ∧ ∀ y ∈ r, ∃ x ∈ l, f x = .ok y := by
  induction l generalizing r with
  | nil =>
    cases h
    exact ⟨rfl, by simp⟩
  | cons x l ih =>
    rw [List.mapM_cons] at h
    obtain ⟨y, hy, h⟩ := exists_of_bind h
    obtain ⟨ys, hys, h⟩ := exists_of_bind h
    cases h
    obtain ⟨hlength, hmem⟩ := ih hys
    refine ⟨by simp [hlength], List.forall_mem_cons.mpr ⟨⟨x, List.mem_cons_self, hy⟩, ?_⟩⟩
    intro z hz
    obtain ⟨x', hx', hz⟩ := hmem z hz
    exact ⟨x', List.mem_cons_of_mem _ hx', hz⟩

theorem exists_of_mapM {f : β → Except ε γ} {l : List β} {r : List γ} (h : l.mapM f = .ok r) :
    ∀ x ∈ l, ∃ y, f x = .ok y := by
  induction l generalizing r with
  | nil => simp
  | cons x l ih =>
    rw [List.mapM_cons] at h
    obtain ⟨y, hy, h⟩ := exists_of_bind h
    obtain ⟨ys, hys, -⟩ := exists_of_bind h
    exact List.forall_mem_cons.mpr ⟨⟨y, hy⟩, ih hys⟩

/-- A filter with effects keeps what passes. -/
theorem of_mem_filterM {p : β → Except ε Bool} {l r : List β} (h : l.filterM p = .ok r) :
    ∀ x ∈ r, x ∈ l ∧ p x = .ok true := by
  have haux : ∀ acc found, List.filterAuxM p l acc = .ok found →
      ∀ x ∈ found, x ∈ acc ∨ x ∈ l ∧ p x = .ok true := by
    clear h
    induction l with
    | nil =>
      intro acc found h x hx
      cases h
      exact .inl hx
    | cons y l ih =>
      intro acc found h x hx
      rw [List.filterAuxM] at h
      obtain ⟨b, hb, h⟩ := exists_of_bind h
      rcases ih _ _ h x hx with hacc | ⟨hmem, hpass⟩
      · cases b with
        | false => exact .inl hacc
        | true =>
          rcases List.mem_cons.mp hacc with rfl | hacc
          · exact .inr ⟨List.mem_cons_self, hb⟩
          · exact .inl hacc
      · exact .inr ⟨List.mem_cons_of_mem _ hmem, hpass⟩
  rw [List.filterM] at h
  obtain ⟨found, hfound, h⟩ := exists_of_bind h
  cases h
  intro x hx
  exact (haux [] found hfound x (List.mem_reverse.mp hx)).resolve_left List.not_mem_nil

/-! ## 2. From the parts to the whole -/

/-- What a map with effects gives where no effect fails. -/
theorem mapM_ok {f : β → Except ε γ} {g : β → γ} :
    ∀ {l : List β}, (∀ x ∈ l, f x = .ok (g x)) → l.mapM f = .ok (l.map g)
  | [], _ => rfl
  | x :: l, h => by
    have hl : l.mapM f = .ok (l.map g) := mapM_ok fun y hy => h y (List.mem_cons_of_mem _ hy)
    rw [List.mapM_cons, h x List.mem_cons_self, hl]
    rfl

/-- What a map with effects gives where every element gives something. -/
theorem exists_mapM {f : β → Except ε γ} {R : β → γ → Prop} :
    ∀ {l : List β}, (∀ x ∈ l, ∃ y, f x = .ok y ∧ R x y) →
      ∃ ys, l.mapM f = .ok ys ∧ List.Forall₂ R l ys
  | [], _ => ⟨[], rfl, .nil⟩
  | x :: l, h => by
    obtain ⟨y, hy, hR⟩ := h x List.mem_cons_self
    obtain ⟨ys, hys, hall⟩ := exists_mapM fun x' hx' => h x' (List.mem_cons_of_mem _ hx')
    refine ⟨y :: ys, ?_, .cons hR hall⟩
    rw [List.mapM_cons, hy, hys]
    rfl

/-- Maps with effects are the same if they do the same with every element. -/
theorem mapM_congr {f g : β → Except ε γ} :
    ∀ {l : List β}, (∀ x ∈ l, f x = g x) → l.mapM f = l.mapM g
  | [], _ => rfl
  | x :: l, h => by
    rw [List.mapM_cons, List.mapM_cons, h x List.mem_cons_self,
      mapM_congr fun y hy => h y (List.mem_cons_of_mem _ hy)]

end Graded
