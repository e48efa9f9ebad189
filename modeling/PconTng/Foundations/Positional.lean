import Mathlib.Data.List.Induction
import Mathlib.Data.Nat.Digits.Defs
import Mathlib.Algebra.Field.Defs
import Mathlib.Algebra.GroupWithZero.Basic
import Mathlib.Tactic.FieldSimp
import Mathlib.Tactic.Ring

/-!
# Positional numerals

The value of a list of digits, the most significant one first, in front of the point (`whole`) and
behind it (`fraction`), and the two loops that compute them: multiplying by the base before each
digit is added (`foldl_whole`), and adding each digit times a power of the base (`foldl_fraction`).
-/

namespace PconTng.Positional

variable {K : Type*} [Field K] {b : ℕ}

/-- The digits as an integer. -/
def whole (b : ℕ) (ds : List ℕ) : ℕ := Nat.ofDigits b ds.reverse

/-- The digits behind a point. -/
def fraction (K : Type*) [Field K] (b : ℕ) (ds : List ℕ) : K := whole b ds / b ^ ds.length

theorem whole_append (ds : List ℕ) (d : ℕ) : whole b (ds ++ [d]) = b * whole b ds + d := by
  rw [whole, List.reverse_append, List.reverse_singleton, List.singleton_append, Nat.ofDigits_cons,
    whole, add_comm]

theorem whole_cons (d : ℕ) (ds : List ℕ) : whole b (d :: ds) = whole b ds + b ^ ds.length * d := by
  rw [whole, List.reverse_cons, Nat.ofDigits_append, Nat.ofDigits_singleton, List.length_reverse,
    whole]

theorem fraction_nil : fraction K b [] = 0 := by
  simp [fraction, whole]

/-- The first digit behind the point counts one power less than the base. -/
theorem fraction_cons (hb : (b : K) ≠ 0) (d : ℕ) (ds : List ℕ) :
    fraction K b (d :: ds) = (d + fraction K b ds) / b := by
  have hpow : (b : K) ^ ds.length ≠ 0 := pow_ne_zero _ hb
  rw [fraction, fraction, whole_cons, List.length_cons, pow_succ]
  push_cast
  field_simp
  ring

theorem foldl_whole (ds : List ℕ) : ds.foldl (fun n d => b * n + d) 0 = whole b ds := by
  induction ds using List.reverseRecOn with
  | nil => rfl
  | append_singleton ds d ih => rw [List.foldl_append, ih, whole_append]; rfl

/-- The loop over the digits behind the point, from the `k`th of them on. -/
theorem foldl_fraction (hb : (b : K) ≠ 0) (s : K) (ds : List ℕ) (k : ℕ) (x : K) :
    (ds.zipIdx k).foldl (fun x d => x + d.1 * (b : K) ^ (-(d.2 + 1 : ℤ)) * s) x =
      x + (b : K) ^ (-(k : ℤ)) * fraction K b ds * s := by
  induction ds generalizing k x with
  | nil => simp [fraction_nil]
  | cons d ds ih =>
    have hpow : (b : K) ^ (-(k + 1 : ℤ)) = (b : K) ^ (-(k : ℤ)) / b := by
      rw [neg_add, zpow_add₀ hb, zpow_neg_one, div_eq_mul_inv]
    rw [List.zipIdx_cons, List.foldl_cons, ih, fraction_cons hb]
    push_cast
    rw [hpow]
    field_simp
    ring

end PconTng.Positional
