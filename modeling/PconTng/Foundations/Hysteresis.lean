import Mathlib.Order.Lattice

/-!
# Switches with hysteresis

A switch that compares a value with a target answers by a threshold, except in a band below the
target, where it answers by the trend (`Band`). Its answer grows with the target (`Band.mono`).

Such a switch is a machine that remembers its last input. What it puts out for an input depends on
this input and on the one before it (`getElem?_outputs`).
-/

namespace PconTng.Hysteresis

/-! ## The band -/

section Band

variable {α : Type*} [LinearOrder α]

/-- An answer for the value `actual` after the value `prev`, the band below a target reaching down
to `low target`: off from the target on, on up to the band, and inside of it on if the value
falls. -/
structure Band (low : α → α) (prev target actual : α) (answer : Prop) : Prop where
  off : target ≤ actual → ¬ answer
  on : actual ≤ low target → answer
  inside : low target < actual → actual < target → (answer ↔ actual < prev)

variable {low : α → α} {prev prev' target target' actual : α} {answer answer' : Prop}

/-- Outside the band the value before does not matter. -/
theorem Band.iff_of_outside (h : Band low prev target actual answer)
    (h' : Band low prev' target actual answer')
    (hout : ¬ (low target < actual ∧ actual < target)) : answer ↔ answer' := by
  by_cases htarget : target ≤ actual
  · exact iff_of_false (h.off htarget) (h'.off htarget)
  · have hlow : actual ≤ low target := by
      by_contra hlt
      exact hout ⟨not_le.1 hlt, not_le.1 htarget⟩
    exact iff_of_true (h.on hlow) (h'.on hlow)

/-- A switch that is on stays on for a higher target. -/
theorem Band.mono (hlow : Monotone low) (h : Band low prev target actual answer)
    (h' : Band low prev target' actual answer') (hle : target ≤ target') (hon : answer) :
    answer' := by
  have htarget : actual < target := by
    by_contra hge
    exact h.off (not_lt.1 hge) hon
  by_cases hbelow : actual ≤ low target'
  · exact h'.on hbelow
  · -- the value is in both bands
    have hlow' : low target' < actual := not_le.1 hbelow
    have hfalls := (h.inside ((hlow hle).trans_lt hlow') htarget).1 hon
    exact (h'.inside hlow' (htarget.trans_le hle)).2 hfalls

end Band

/-! ## The last input -/

section Outputs

variable {μ ι ο : Type*} (mem : ι → μ) (out : μ → ι → ο)

/-- The outputs of a machine that remembers `mem` of its last input. -/
def outputs : μ → List ι → List ο
  | _, [] => []
  | m, i :: is => out m i :: outputs (mem i) is

/-- What it remembers after some inputs. -/
def last (m : μ) (is : List ι) : μ := is.foldl (fun _ i => mem i) m

@[simp] theorem last_cons (m : μ) (i : ι) (is : List ι) :
    last mem m (i :: is) = last mem (mem i) is := rfl

@[simp] theorem last_concat (m : μ) (is : List ι) (i : ι) : last mem m (is ++ [i]) = mem i := by
  simp [last]

@[simp] theorem length_outputs (m : μ) (is : List ι) :
    (outputs mem out m is).length = is.length := by
  induction is generalizing m with
  | nil => rfl
  | cons i is ih => simp [outputs, ih]

theorem outputs_append (m : μ) (is js : List ι) :
    outputs mem out m (is ++ js) = outputs mem out m is ++ outputs mem out (last mem m is) js := by
  induction is generalizing m with
  | nil => rfl
  | cons i is ih => simp [outputs, ih]

/-- What it puts out for the input behind `is`. -/
theorem getElem?_outputs (m : μ) (is js : List ι) (i : ι) :
    (outputs mem out m (is ++ i :: js))[is.length]? = some (out (last mem m is) i) := by
  have hlen := length_outputs mem out m is
  rw [outputs_append, List.getElem?_append_right (Nat.le_of_eq hlen), hlen, Nat.sub_self]
  rfl

end Outputs

end PconTng.Hysteresis
