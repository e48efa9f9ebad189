import Mathlib.Tactic.Ring
import PconTng.Foundations.CMemory
import PconTng.Foundations.Hysteresis

/-!
# The slab controller

`slab_control.c` decides whether a heated slab is switched on. It remembers the last reading it
was given, for whatever channel, in the static variable `hold` of `direction`, which is passed
along here: each routine returns its result with the new value of `hold`.

The sums of the routine may leave the range of an `int`, and so may the numbers that the daemon
converts from `float`. What C then does is not defined. The routines are therefore given the
operations they use (`IntOps`): `slabconInt` is the routine with those of C, and `slabcon` the same
routine with all integers. `slabconInt_eq` says when the two agree.
-/

namespace PconTng

open CMemory

/-! ## Numbers of type `int` -/

def IsInt (n : ℤ) : Prop := -2 ^ 31 ≤ n ∧ n < 2 ^ 31

instance (n : ℤ) : Decidable (IsInt n) := inferInstanceAs (Decidable (_ ∧ _))

/-- `x + y`. What happens on an overflow is not defined. -/
def sumInt (x y : ℤ) : Except Stop ℤ := if IsInt (x + y) then .ok (x + y) else .error .fault

/-- The conversion of a `float` to `int`, which is not defined for a number that does not fit. -/
def convInt (x : ℚ) : Except Stop ℤ :=
  if IsInt (intOfFloat x) then .ok (intOfFloat x) else .error .fault

/-- The operations whose result may not fit an `int`. -/
structure IntOps (m : Type → Type) where
  sum : ℤ → ℤ → m ℤ
  conv : ℚ → m ℤ

/-- The operations of C. -/
def IntOps.int : IntOps (Except Stop) := ⟨sumInt, convInt⟩

theorem IntOps.int_conv (x : ℚ) : IntOps.int.conv x =
    if IsInt (intOfFloat x) then .ok (intOfFloat x) else .error .fault :=
  rfl

/-- The operations with all integers. -/
def IntOps.all : IntOps Id := ⟨fun x y => x + y, intOfFloat⟩

/-! ## The controller -/

abbrev hSetback : ℤ := 5
abbrev lSetback : ℤ := 5

/-- `direction`: -1, 0 or 1 as the reading falls, stays or rises. -/
def direction (hold n : ℤ) : ℤ × ℤ :=
  if hold = n then (0, hold)
  else if hold > n then (-1, n)
  else (1, n)

/-- `slabcon` -/
def slabconWith {m : Type → Type} [Monad m] (ops : IntOps m) (hold target actual : ℤ) :
    m (ℤ × ℤ) := do
  let (dir, hold) := direction hold actual
  if dir = -1 then
    return (if target ≤ actual then 0 else if target > actual then 1 else 0, hold)
  else if dir = 1 then
    if target < (← ops.sum actual hSetback) then return (0, hold)
    else if target ≥ (← ops.sum actual (-lSetback)) then return (1, hold)
    else return (0, hold)
  else if dir = 0 then
    if target < (← ops.sum actual hSetback) then return (0, hold)
    else if target ≥ (← ops.sum actual (-lSetback)) then return (1, hold)
    else return (0, hold)
  else return (2000, hold)

/-- The routine as C runs it. -/
def slabconInt (hold target actual : ℤ) : Except Stop (ℤ × ℤ) :=
  slabconWith .int hold target actual

/-- The routine with all integers. -/
def slabcon (hold target actual : ℤ) : ℤ × ℤ := slabconWith .all hold target actual

/-- Whether the controller switches the slab on: below the target while the reading falls, and
five degrees below it otherwise. -/
def demand (hold target actual : ℤ) : Prop :=
  if hold > actual then target > actual else target ≥ actual + hSetback

instance (hold target actual : ℤ) : Decidable (demand hold target actual) := by
  unfold demand
  infer_instance

section

variable {m : Type → Type} [Monad m] (ops : IntOps m) {hold target actual : ℤ}

/-- While the reading falls nothing is added. -/
theorem slabconWith_falling (h : hold > actual) :
    slabconWith ops hold target actual = pure (if target > actual then 1 else 0, actual) := by
  have hd : direction hold actual = (-1, actual) := by
    rw [direction, if_neg (ne_of_gt h), if_pos h]
  simp only [slabconWith, hd]
  rw [if_pos trivial]
  congr 2
  split_ifs <;> omega

/-- Otherwise the two sums decide. -/
theorem slabconWith_not_falling (h : ¬ hold > actual) :
    slabconWith ops hold target actual = do
      if target < (← ops.sum actual hSetback) then return (0, actual)
      else if target ≥ (← ops.sum actual (-lSetback)) then return (1, actual)
      else return (0, actual) := by
  rcases (not_lt.1 h).lt_or_eq with hlt | rfl
  · have hd : direction hold actual = (1, actual) := by
      rw [direction, if_neg hlt.ne, if_neg h]
    simp only [slabconWith, hd]
    rw [if_neg (by decide), if_pos trivial]
  · have hd : direction hold hold = (0, hold) := by rw [direction, if_pos rfl]
    simp only [slabconWith, hd]
    rw [if_neg (by decide), if_neg (by decide), if_pos trivial]

theorem demand_falling (h : hold > actual) : demand hold target actual ↔ target > actual :=
  (if_pos h).to_iff

theorem demand_not_falling (h : ¬ hold > actual) :
    demand hold target actual ↔ target ≥ actual + hSetback :=
  (if_neg h).to_iff

end

/-- The controller answers 0 or 1 and remembers the reading. -/
theorem slabcon_eq (hold target actual : ℤ) :
    slabcon hold target actual = (if demand hold target actual then 1 else 0, actual) := by
  unfold slabcon
  by_cases h : hold > actual
  · rw [slabconWith_falling _ h, if_congr (demand_falling h) rfl rfl]
    rfl
  · have hlast : target ≥ actual + hSetback → target ≥ actual + -lSetback := fun hle => by
      dsimp only [hSetback, lSetback] at hle ⊢
      omega
    rw [slabconWith_not_falling _ h, if_congr (demand_not_falling h) rfl rfl]
    change (if target < actual + hSetback then ((0 : ℤ), actual)
      else if target ≥ actual + -lSetback then (1, actual) else (0, actual)) = _
    by_cases hlow : target < actual + hSetback
    · rw [if_pos hlow, if_neg (not_le.2 hlow)]
    · rw [if_neg hlow, if_pos (hlast (not_lt.1 hlow)), if_pos (not_lt.1 hlow)]

/-- The controller is a switch with a band of five degrees below the target. -/
theorem demand_band (hold target actual : ℤ) :
    Hysteresis.Band (· - hSetback) hold target actual (demand hold target actual) := by
  constructor
  · intro hoff
    unfold demand hSetback
    split_ifs <;> omega
  · intro (hon : actual ≤ target - 5)
    unfold demand hSetback
    split_ifs <;> omega
  · intro (hlow : target - 5 < actual) htarget
    unfold demand hSetback
    split_ifs <;> omega

/-- Outside the band of five degrees below the target the trend does not matter. -/
theorem demand_iff_of_not_band {target actual : ℤ} (h : ¬ (actual < target ∧ target < actual + 5))
    (hold hold' : ℤ) : demand hold target actual ↔ demand hold' target actual := by
  refine (demand_band hold target actual).iff_of_outside (demand_band hold' target actual) ?_
  rintro ⟨hlow, htarget⟩
  exact h ⟨htarget, sub_lt_iff_lt_add.1 hlow⟩

/-- Inside the band only a falling reading switches the slab on. -/
theorem demand_iff_of_band {target actual : ℤ} (h : actual < target ∧ target < actual + 5)
    (hold : ℤ) : demand hold target actual ↔ hold > actual :=
  (demand_band hold target actual).inside (sub_lt_iff_lt_add.2 h.2) h.1

/-! ## When no sum overflows -/

/-- The sums that the controller computes fit an `int`: none while the reading falls, and otherwise
the second only if the first one does not decide. -/
def SumsFit (hold target actual : ℤ) : Prop :=
  hold > actual ∨
    IsInt (actual + hSetback) ∧ (actual + hSetback ≤ target → IsInt (actual - lSetback))

instance (hold target actual : ℤ) : Decidable (SumsFit hold target actual) :=
  inferInstanceAs (Decidable (_ ∨ _))

/-- The routine of C computes with all integers exactly when its sums fit. -/
theorem slabconInt_eq (hold target actual : ℤ) : slabconInt hold target actual =
    if SumsFit hold target actual then .ok (slabcon hold target actual) else .error .fault := by
  rw [slabconInt, slabcon_eq]
  by_cases h : hold > actual
  · rw [if_pos (show SumsFit hold target actual from .inl h), slabconWith_falling _ h,
      if_congr (demand_falling h) rfl rfl]
    rfl
  · have hiff : SumsFit hold target actual ↔ IsInt (actual + hSetback) ∧
        (actual + hSetback ≤ target → IsInt (actual - lSetback)) := or_iff_right h
    rw [slabconWith_not_falling _ h, if_congr (demand_not_falling h) rfl rfl,
      if_congr hiff rfl rfl]
    have hsum : IntOps.int.sum actual hSetback =
        if IsInt (actual + hSetback) then .ok (actual + hSetback) else .error .fault := rfl
    have hdiff : IntOps.int.sum actual (-lSetback) =
        if IsInt (actual - lSetback) then .ok (actual - lSetback) else .error .fault := by
      rw [sub_eq_add_neg]
      rfl
    by_cases hplus : IsInt (actual + hSetback)
    · rw [hsum, if_pos hplus]
      change (if target < actual + hSetback then _ else _) = _
      by_cases hlow : target < actual + hSetback
      · rw [if_pos hlow, if_neg (not_le.2 hlow),
          if_pos ⟨hplus, fun hle => absurd hle (not_le.2 hlow)⟩]
        rfl
      · have hle := not_lt.1 hlow
        rw [if_neg hlow, if_pos hle, hdiff]
        by_cases hminus : IsInt (actual - lSetback)
        · rw [if_pos hminus, if_pos ⟨hplus, fun _ => hminus⟩]
          exact if_pos (by dsimp only [hSetback, lSetback] at hle ⊢; omega)
        · rw [if_neg hminus, if_neg fun hall => hminus (hall.2 hle)]
          rfl
    · rw [hsum, if_neg hplus, if_neg fun hall => hplus hall.1]
      rfl

end PconTng
