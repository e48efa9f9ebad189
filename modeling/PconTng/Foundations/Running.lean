import Mathlib.Logic.Function.Basic
import Mathlib.Order.Bounds.Basic
import Mathlib.Order.MinMax

/-!
# Running totals

The greatest and the least element of a list are found by a fold that starts with a value of its
own, as long as that value does not win (`isGreatest_foldl_max_iff`, `isLeast_foldl_min_iff`).
Totals that are kept by key are, for each key, the totals of the records with that key
(`foldl_update_apply`).
-/

namespace PconTng.Running

section Extremes

variable {α : Type*} [LinearOrder α]

theorem isGreatest_foldl_max (a : α) (l : List α) :
    IsGreatest {x | x ∈ a :: l} (l.foldl max a) := by
  have hmax : (a :: l).max? = some (l.foldl max a) := List.max?_cons'
  exact List.max?_eq_some_iff.1 hmax

variable {a : α} {l : List α}

theorem foldl_max_mem {x : α} (hx : x ∈ l) (hax : a ≤ x) : l.foldl max a ∈ l := by
  obtain ⟨hmem, hupper⟩ := isGreatest_foldl_max a l
  rcases List.mem_cons.1 hmem with hstart | hmem
  · -- the start is the greatest of all, so it is the element not below it
    have hxa : x ≤ a := hstart ▸ hupper (List.mem_cons_of_mem a hx)
    rw [hstart, le_antisymm hax hxa]
    exact hx
  · exact hmem

/-- The running maximum ends at the greatest element if the start is not greater than all of
them. -/
theorem isGreatest_foldl_max_iff :
    IsGreatest {x | x ∈ l} (l.foldl max a) ↔ ∃ x ∈ l, a ≤ x := by
  have hupper := (isGreatest_foldl_max a l).2
  constructor
  · intro h
    exact ⟨_, h.1, hupper List.mem_cons_self⟩
  · rintro ⟨x, hx, hax⟩
    exact ⟨foldl_max_mem hx hax, fun y hy => hupper (List.mem_cons_of_mem a hy)⟩

theorem isLeast_foldl_min_iff : IsLeast {x | x ∈ l} (l.foldl min a) ↔ ∃ x ∈ l, x ≤ a :=
  isGreatest_foldl_max_iff (α := αᵒᵈ)

/-- The running maximum ends at the least element only if there is no other. -/
theorem isLeast_foldl_max_iff :
    IsLeast {x | x ∈ l} (l.foldl max a) ↔ l ≠ [] ∧ ∀ x ∈ l, a ≤ x ∧ ∀ y ∈ l, x = y := by
  have hupper := (isGreatest_foldl_max a l).2
  constructor
  · rintro ⟨hfound, hlower⟩
    have heq : ∀ x ∈ l, x = l.foldl max a := fun x hx =>
      le_antisymm (hupper (List.mem_cons_of_mem a hx)) (hlower hx)
    refine ⟨List.ne_nil_of_mem hfound, fun x hx => ⟨?_, fun y hy => ?_⟩⟩
    · rw [heq x hx]
      exact hupper List.mem_cons_self
    · rw [heq x hx, heq y hy]
  · rintro ⟨hne, hall⟩
    obtain ⟨x, hx⟩ := List.exists_mem_of_ne_nil l hne
    have hfound := foldl_max_mem hx (hall x hx).1
    exact ⟨hfound, fun y hy => ((hall _ hfound).2 y hy).le⟩

end Extremes

/-- Totals kept by key are the totals of the records with that key. -/
theorem foldl_update_apply {κ ρ σ : Type*} [DecidableEq κ] (key : ρ → κ) (step : σ → ρ → σ)
    (l : List ρ) (f : κ → σ) (k : κ) :
    l.foldl (fun f r => Function.update f (key r) (step (f (key r)) r)) f k =
      (l.filter (key · = k)).foldl step (f k) := by
  induction l generalizing f with
  | nil => rfl
  | cons r l ih =>
    rw [List.foldl_cons, ih]
    by_cases hk : key r = k
    · subst hk
      simp
    · simp [hk, Function.update_of_ne (Ne.symm hk)]

end PconTng.Running
