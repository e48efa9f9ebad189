import Mathlib.Data.List.TakeWhile
import PconTng.Foundations.Positional
import PconTng.Scon.Request

/-!
# The numbers of a request

`new_strtof` cuts a number at its dot and reads the two parts, the first with `strtol` and the
second digit by digit. It never looks whether `strtok` has found a second part. In exact arithmetic
its result is the number that a numeral denotes, exactly when the numeral has a digit behind a dot
(`newStrtof_iff`); for any other numeral a null pointer is read.
-/

namespace PconTng.Scon

open CMemory

/-! ## Exact arithmetic -/

/-- `new_strtof` with base 10, with the conversion of an integer to `float` and the sum of a `float`
and a digit as parameters. -/
def newStrtofWith (convert : ℤ → ℚ) (accumulate : ℚ → ℤ → ℕ → ℤ → ℚ) (ostr : List Byte) :
    Except Ending ℚ := do
  match strtok ostr with
  | none => .error .fault
  | some (beforeTheDot, rest) =>
    match strtok rest with
    | none => .error .fault
    | some (afterTheDot, _) =>
      let sign : ℤ := if ostr.head? = some minus then -1 else 1
      return afterTheDot.zipIdx.foldl (fun f (c, i) => accumulate f (strtol [c]) i sign)
        (convert (strtol beforeTheDot))

/-- With the arithmetic of `float` this is the function of the program. -/
theorem newStrtof_eq (accumulate : ℚ → ℤ → ℕ → ℤ → ℚ) :
    newStrtof accumulate = newStrtofWith floatOfInt accumulate := by
  funext ostr
  rfl

/-- `f + d * pow(10, -(i + 1)) * sign` in rational numbers. -/
def exactSum (f : ℚ) (d : ℤ) (i : ℕ) (sign : ℤ) : ℚ := f + d * 10 ^ (-(i + 1 : ℤ)) * sign

/-- `new_strtof` in rational numbers. -/
def exactStrtof (ostr : List Byte) : Except Ending ℚ := newStrtofWith (fun n => n) exactSum ostr

/-! ## Numerals -/

/-- An optional minus sign, one or more digits, and optionally a dot followed by digits. -/
structure Numeral where
  neg : Bool
  whole : List (Fin 10)
  fraction : Option (List (Fin 10))
  whole_ne_nil : whole ≠ []

/-- The character for a digit. -/
def digit (d : Fin 10) : Byte := UInt8.ofNat (48 + d)

namespace Numeral

variable (n : Numeral)

def signText : List Byte := if n.neg then [minus] else []

def dotText : List Byte := n.fraction.elim [] fun ds => dot :: ds.map digit

/-- The numeral as it is written. -/
def text : List Byte := n.signText ++ n.whole.map digit ++ n.dotText

def sign : ℤ := if n.neg then -1 else 1

/-- The integer part with its sign. -/
def intPart : ℤ := n.sign * (Positional.whole 10 (n.whole.map Fin.val) : ℕ)

/-- The number that the numeral denotes. -/
def value : ℚ :=
  n.sign * (Positional.whole 10 (n.whole.map Fin.val) +
    Positional.fraction ℚ 10 ((n.fraction.getD []).map Fin.val))

/-- The integer part is a `long`. -/
def FitsLong : Prop := -2 ^ 31 ≤ n.intPart ∧ n.intPart ≤ 2 ^ 31 - 1

end Numeral

/-! ## Characters -/

theorem isDigit_digit (d : Fin 10) : isDigit (digit d) := by
  revert d
  decide

theorem digit_value (d : Fin 10) : (digit d).toNat - 48 = d := by
  revert d
  decide

theorem digit_notMem (d : Fin 10) : digit d ∉ [dot, minus, plus] ∧ isSpace (digit d) = false := by
  revert d
  decide

theorem strtol_digit (d : Fin 10) : strtol [digit d] = d.val := by
  revert d
  decide

theorem dot_notMem_digits (ds : List (Fin 10)) : dot ∉ ds.map digit := by
  intro h
  obtain ⟨d, -, hd⟩ := List.mem_map.1 h
  exact (digit_notMem d).1 (hd ▸ List.mem_cons_self)

/-! ## Cutting at the dot -/

/-- A word without a dot is taken whole. -/
theorem strtok_append {w : List Byte} (hne : w ≠ []) (hw : dot ∉ w) (l : List Byte) :
    strtok (w ++ l) = some (w ++ l.takeWhile (· ≠ dot), (l.dropWhile (· ≠ dot)).drop 1) := by
  obtain ⟨c, w, rfl⟩ := List.exists_cons_of_ne_nil hne
  have hc : c ≠ dot := fun h => hw (h ▸ List.mem_cons_self)
  have hall : ∀ x ∈ c :: w, decide (x ≠ dot) = true := fun x hx =>
    decide_eq_true fun h => hw (h ▸ hx)
  have hstart : (c :: w ++ l).dropWhile (· = dot) = c :: w ++ l := by
    simp [hc]
  rw [strtok]
  rw [hstart, if_neg (by simp), List.takeWhile_append_of_pos hall,
    List.dropWhile_append_of_pos hall]

theorem strtok_dot {w : List Byte} (hne : w ≠ []) (hw : dot ∉ w) (rest : List Byte) :
    strtok (w ++ dot :: rest) = some (w, rest) := by
  simp [strtok_append hne hw]

theorem strtok_last {w : List Byte} (hne : w ≠ []) (hw : dot ∉ w) :
    strtok w = some (w, []) := by
  simpa using strtok_append hne hw []

/-! ## The integer part -/

variable (n : Numeral)

theorem foldl_digits (ds : List (Fin 10)) :
    (ds.map digit).foldl (fun n c => 10 * n + (c.toNat - 48)) 0 =
      Positional.whole 10 (ds.map Fin.val) := by
  rw [← Positional.foldl_whole, List.foldl_map, List.foldl_map]
  simp only [digit_value]

theorem takeWhile_digits (ds : List (Fin 10)) :
    (ds.map digit).takeWhile isDigit = ds.map digit := by
  rw [List.takeWhile_eq_self_iff]
  intro c hc
  obtain ⟨d, -, rfl⟩ := List.mem_map.1 hc
  exact isDigit_digit d

theorem strtol_unsigned {ds : List (Fin 10)} (h : ds ≠ []) :
    strtol (ds.map digit) = min (2 ^ 31 - 1) (Positional.whole 10 (ds.map Fin.val) : ℤ) := by
  obtain ⟨d, ds', rfl⟩ := List.exists_cons_of_ne_nil h
  have hd := digit_notMem d
  simp only [List.mem_cons, List.not_mem_nil, or_false, not_or] at hd
  have hspace : ((d :: ds').map digit).dropWhile isSpace = (d :: ds').map digit := by
    rw [List.map_cons, List.dropWhile_cons_of_neg (by simp [hd.2])]
  have hhead : ((d :: ds').map digit).head? = some (digit d) := rfl
  have hminus : ¬ some (digit d) = some minus := fun he => hd.1.2.1 (Option.some.inj he)
  have hplus : ¬ some (digit d) = some plus := fun he => hd.1.2.2 (Option.some.inj he)
  unfold strtol
  simp only [hspace, hhead, hminus, hplus, decide_false, Bool.false_eq_true, or_self, if_false]
  rw [takeWhile_digits, foldl_digits]

theorem strtol_minus (ds : List (Fin 10)) :
    strtol (minus :: ds.map digit) =
      max (-2 ^ 31) (-(Positional.whole 10 (ds.map Fin.val) : ℤ)) := by
  have hspace : (minus :: ds.map digit).dropWhile isSpace = minus :: ds.map digit :=
    List.dropWhile_cons_of_neg (by decide)
  unfold strtol
  simp only [hspace, List.head?_cons, decide_true, true_or, if_true, List.drop_one, List.tail_cons]
  rw [takeWhile_digits, foldl_digits]

/-- What stands in front of the dot is read as the integer part. -/
theorem strtol_text (h : n.FitsLong) : strtol (n.signText ++ n.whole.map digit) = n.intPart := by
  rw [Numeral.FitsLong, Numeral.intPart, Numeral.sign] at h
  rw [Numeral.intPart, Numeral.sign, Numeral.signText]
  cases hneg : n.neg with
  | true =>
    rw [hneg, if_pos rfl] at h
    rw [if_pos rfl, if_pos rfl, List.singleton_append, strtol_minus]
    omega
  | false =>
    rw [hneg, if_neg Bool.false_ne_true] at h
    rw [if_neg Bool.false_ne_true, if_neg Bool.false_ne_true, List.nil_append,
      strtol_unsigned n.whole_ne_nil]
    omega

/-! ## The whole numeral -/

theorem front_ne_nil : n.signText ++ n.whole.map digit ≠ [] := by
  simp [n.whole_ne_nil]

theorem dot_notMem_front : dot ∉ n.signText ++ n.whole.map digit := by
  intro h
  obtain h | h := List.mem_append.1 h
  · unfold Numeral.signText at h
    split_ifs at h
    · exact absurd h (by decide)
    · cases h
  · exact dot_notMem_digits _ h

/-- The sign is taken from the first character. -/
theorem sign_of_head : (if n.text.head? = some minus then -1 else 1) = n.sign := by
  obtain ⟨d, ds, hds⟩ := List.exists_cons_of_ne_nil n.whole_ne_nil
  have hd := digit_notMem d
  simp only [List.mem_cons, List.not_mem_nil, or_false, not_or] at hd
  unfold Numeral.text Numeral.signText Numeral.sign
  rw [hds]
  cases n.neg with
  | true => simp
  | false => simp [hd.1.2.1]

variable (convert : ℤ → ℚ) (accumulate : ℚ → ℤ → ℕ → ℤ → ℚ)

/-- A numeral with a digit behind the dot is read: the digits are added one by one to the integer
part. -/
theorem newStrtofWith_of_fraction (h : n.FitsLong) {ds : List (Fin 10)}
    (hds : n.fraction = some ds) (hne : ds ≠ []) :
    newStrtofWith convert accumulate n.text =
      .ok (ds.zipIdx.foldl (fun f (d, i) => accumulate f d.val i n.sign) (convert n.intPart)) := by
  have hdot : n.text = n.signText ++ n.whole.map digit ++ dot :: ds.map digit := by
    rw [Numeral.text, Numeral.dotText, hds, Option.elim_some]
  have hcut := strtok_dot (front_ne_nil n) (dot_notMem_front n) (ds.map digit)
  have hrest := strtok_last (by simpa using hne) (dot_notMem_digits ds)
  have hsign := sign_of_head n
  unfold newStrtofWith
  rw [hdot] at hsign ⊢
  simp only [hcut, hrest, hsign, strtol_text n h]
  rw [List.zipIdx_map, List.foldl_map]
  simp only [Prod.map, strtol_digit, id_eq]
  rfl

/-- Without one the second part is a null pointer. -/
theorem newStrtofWith_of_not_fraction (h : n.fraction.getD [] = []) :
    newStrtofWith convert accumulate n.text = .error .fault := by
  have hcut : strtok n.text = some (n.signText ++ n.whole.map digit, []) := by
    rw [Numeral.text, Numeral.dotText]
    cases hf : n.fraction with
    | none =>
      rw [Option.elim_none, List.append_nil]
      exact strtok_last (front_ne_nil n) (dot_notMem_front n)
    | some ds =>
      rw [hf, Option.getD_some] at h
      rw [h]
      exact strtok_dot (front_ne_nil n) (dot_notMem_front n) []
  unfold newStrtofWith
  rw [hcut]
  rfl

/-- In exact arithmetic the digits behind the dot make the fraction. -/
theorem foldl_fraction (sign : ℤ) (x : ℚ) (ds : List (Fin 10)) :
    ds.zipIdx.foldl (fun f (d, i) => exactSum f d.val i sign) x =
      x + sign * Positional.fraction ℚ 10 (ds.map Fin.val) := by
  have hfold := Positional.foldl_fraction (K := ℚ) (b := 10) (by norm_num) sign
    (ds.map Fin.val) 0 x
  rw [List.zipIdx_map, List.foldl_map] at hfold
  simp only [Prod.map, id_eq] at hfold
  rw [Nat.cast_zero, neg_zero, zpow_zero, one_mul, mul_comm _ (sign : ℚ)] at hfold
  rw [← hfold]
  rfl

/-- A numeral with a digit behind the dot is read as what it denotes. -/
theorem exactStrtof_of_fraction (h : n.FitsLong) {ds : List (Fin 10)}
    (hds : n.fraction = some ds) (hne : ds ≠ []) : exactStrtof n.text = .ok n.value := by
  rw [exactStrtof, newStrtofWith_of_fraction n _ _ h hds hne, foldl_fraction, Numeral.value, hds,
    Option.getD_some, Numeral.intPart]
  push_cast
  rw [mul_add]

/-- **A number is read exactly when it has a digit behind the dot.** -/
theorem newStrtof_iff (h : n.FitsLong) :
    exactStrtof n.text = .ok n.value ↔ n.fraction.getD [] ≠ [] := by
  constructor
  · intro hok hnil
    rw [exactStrtof, newStrtofWith_of_not_fraction n _ _ hnil] at hok
    cases hok
  · intro hne
    cases hf : n.fraction with
    | none =>
      rw [hf] at hne
      exact absurd rfl hne
    | some ds =>
      rw [hf, Option.getD_some] at hne
      exact exactStrtof_of_fraction n h hf hne

/-- `-0.5` -/
def minusHalf : Numeral := ⟨true, [0], some [5], List.cons_ne_nil _ _⟩

/-- The sign is kept where the integer part is zero. -/
theorem newStrtof_minusHalf : exactStrtof (str "-0.5") = .ok minusHalf.value :=
  (newStrtof_iff minusHalf (by unfold Numeral.FitsLong; decide)).2 (List.cons_ne_nil _ _)

/-- `21` -/
def twentyOne : Numeral := ⟨false, [2, 1], none, List.cons_ne_nil _ _⟩

/-- A reading without a fraction is not read. -/
theorem newStrtof_not_exact :
    ¬ ∀ n : Numeral, n.FitsLong → exactStrtof n.text = .ok n.value := by
  intro hall
  have hok := hall twentyOne (by unfold Numeral.FitsLong; decide)
  rw [exactStrtof, newStrtofWith_of_not_fraction twentyOne _ _ rfl] at hok
  cases hok

end PconTng.Scon
