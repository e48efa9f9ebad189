import Mathlib.Data.Nat.Init
import PconTng.Typedefs

/-!
# The thermometer

`dht22_min.lua` reads a DHT22. The sensor sends forty bits, a long pulse for a one and a short one
for a zero: sixteen bits of humidity, sixteen of temperature with the sign apart from the magnitude,
and the sum of these four bytes.

Every reading comes through as it is, but for a temperature of minus zero, and an error within one
of the five bytes never goes unnoticed (`read_reading`).
-/

namespace PconTng.Dht22

/-! ## The driver -/

/-- The loops over the lengths of the pulses: the number whose bits are `n` of them, from the one
with the index `start + 1` on. A pulse is a one if it has been seen more than four times. -/
def word (l : ℕ → ℕ) (start n : ℕ) : ℕ :=
  (List.range' 1 n).foldl (fun o e => if l (e + start) > 4 then o + 2 ^ (n - e) else o) 0

/-- `read`, from the lengths of the forty pulses on, with what `getHumidity` and `getTemperature`
then return. -/
def read (l : ℕ → ℕ) : Option ℕ × ℤ :=
  let o := word l 0 16
  let d := word l 16 16
  let r := word l 32 8
  let t := ((o &&& 255) + o >>> 8 + (d &&& 255) + d >>> 8) &&& 255
  (if (t : ℤ) - r ≥ 1 ∨ (r : ℤ) - t ≥ 1 then none else some o,
    if d > 32768 then -((d : ℤ) - 32768) else d)

/-! ## The bits of a word -/

variable {l l' : ℕ → ℕ} {start n k : ℕ}

/-- One more bit. -/
theorem word_succ (l : ℕ → ℕ) (start n : ℕ) :
    word l start (n + 1) = 2 * word l start n + if l (n + 1 + start) > 4 then 1 else 0 := by
  have double : ∀ (es : List ℕ) (o : ℕ), (∀ e ∈ es, e ≤ n) →
      es.foldl (fun o e => if l (e + start) > 4 then o + 2 ^ (n + 1 - e) else o) (2 * o) =
        2 * es.foldl (fun o e => if l (e + start) > 4 then o + 2 ^ (n - e) else o) o := by
    intro es
    induction es with
    | nil => exact fun _ _ => rfl
    | cons e es ih =>
      intro o hes
      rw [List.forall_mem_cons] at hes
      have hpow : 2 ^ (n + 1 - e) = 2 * 2 ^ (n - e) := by
        rw [Nat.succ_sub hes.1, pow_succ, mul_comm]
      rw [List.foldl_cons, List.foldl_cons, ← ih _ hes.2]
      split_ifs with h
      · rw [hpow, mul_add]
      · rfl
  have hes : ∀ e ∈ List.range' 1 n, e ≤ n := by
    intro e he
    rw [List.mem_range'_1] at he
    omega
  rw [word, List.range'_1_concat, List.foldl_append, ← mul_zero 2, double _ _ hes, word]
  simp [add_comm 1 n]
  split_ifs <;> rfl

/-- A word is a number of binary digits. -/
theorem word_eq (l : ℕ → ℕ) (start n : ℕ) :
    word l start n = Nat.ofBits fun k : Fin n => decide (l (start + n - k) > 4) := by
  induction n with
  | zero => rfl
  | succ n ih =>
    rw [word_succ, ih, Nat.ofBits_succ]
    have hlast : n + 1 + start = start + (n + 1) := by omega
    have htail : (fun k : Fin (n + 1) => decide (l (start + (n + 1) - k) > 4)) ∘ Fin.succ =
        fun k : Fin n => decide (l (start + n - k) > 4) := by
      funext k
      simp [Nat.add_sub_add_right, ← Nat.add_assoc]
    rw [htail, hlast]
    simp [Bool.toNat]

theorem word_lt (l : ℕ → ℕ) (start n : ℕ) : word l start n < 2 ^ n := by
  rw [word_eq]
  exact Nat.ofBits_lt_two_pow _

/-- The bits of a word are its pulses, from the last one on. -/
theorem testBit_word (l : ℕ → ℕ) (start : ℕ) (hk : k < n) :
    (word l start n).testBit k = decide (l (start + n - k) > 4) := by
  rw [word_eq, Nat.testBit_ofBits_lt _ _ hk]

/-- A word in two parts. -/
theorem word_add (l : ℕ → ℕ) (start m n : ℕ) :
    word l start (m + n) = word l start m * 2 ^ n + word l (start + m) n := by
  induction n with
  | zero => rw [pow_zero, mul_one]; rfl
  | succ n ih =>
    have hlast : m + n + 1 + start = n + 1 + (start + m) := by omega
    rw [← Nat.add_assoc, word_succ, ih, word_succ, hlast, pow_succ]
    ring

/-- Words are equal when their pulses stand for the same bits. -/
theorem word_inj : word l start n = word l' start n ↔
    ∀ i, start < i → i ≤ start + n → (l i > 4 ↔ l' i > 4) := by
  constructor
  · intro h i hlow hhigh
    have hbit := congrArg (Nat.testBit · (start + n - i)) h
    simp only [testBit_word _ start (show start + n - i < n by omega)] at hbit
    rw [show start + n - (start + n - i) = i by omega] at hbit
    exact decide_eq_decide.1 hbit
  · intro h
    rw [word_eq, word_eq]
    refine congrArg Nat.ofBits (funext fun k => ?_)
    exact decide_eq_decide.2 (h _ (by omega) (by omega))

/-! ## What the sensor sends -/

/-- The sum of the four bytes of two words. -/
def sum (h m : ℕ) : ℕ := (h / 256 + h % 256 + m / 256 + m % 256) % 256

/-- The forty bits for two words, as a number. -/
def frame (h m : ℕ) : ℕ := (h * 2 ^ 16 + m) * 2 ^ 8 + sum h m

/-- The temperature with its sign apart from its magnitude. -/
def signed (x : ℤ) : ℕ := if x < 0 then 2 ^ 15 + x.natAbs else x.natAbs

/-- The pulses stand for the bits of a number, the first one for the highest. -/
def Sends (l : ℕ → ℕ) (x : ℕ) : Prop := ∀ i, 0 < i → i ≤ 40 → (l i > 4 ↔ x.testBit (40 - i))

/-- The pulses stand for the same bits, but for the byte with the index `j`. -/
def SameBut (j : ℕ) (l l' : ℕ → ℕ) : Prop :=
  ∀ i, 0 < i → i ≤ 40 → ¬ (8 * j < i ∧ i ≤ 8 * j + 8) → (l i > 4 ↔ l' i > 4)

theorem Sends.word {x : ℕ} (h : Sends l x) (hn : start + n ≤ 40) :
    word l start n = x / 2 ^ (40 - (start + n)) % 2 ^ n := by
  apply Nat.eq_of_testBit_eq
  intro k
  rw [Nat.testBit_mod_two_pow, Nat.testBit_div_two_pow]
  by_cases hk : k < n
  · rw [testBit_word l start hk, decide_eq_true hk, Bool.true_and]
    have hbit := h (start + n - k) (by omega) (by omega)
    rw [show 40 - (start + n - k) = k + (40 - (start + n)) by omega] at hbit
    exact Bool.eq_iff_iff.2 (decide_eq_true_iff.trans hbit)
  · rw [decide_eq_false hk, Bool.false_and]
    exact Nat.testBit_lt_two_pow ((word_lt l start n).trans_le
      (Nat.pow_le_pow_right (by decide) (by omega)))

/-! ## What is read -/

theorem read_eq (l : ℕ → ℕ) : read l =
    (if sum (word l 0 16) (word l 16 16) = word l 32 8 then some (word l 0 16) else none,
      if word l 16 16 > 32768 then -((word l 16 16 : ℤ) - 32768) else word l 16 16) := by
  have hlow : ∀ x : ℕ, x &&& 255 = x % 256 := fun x => Nat.and_two_pow_sub_one_eq_mod x 8
  have hhigh : ∀ x : ℕ, x >>> 8 = x / 256 := fun x => Nat.shiftRight_eq_div_pow x 8
  have hcheck : (word l 0 16 % 256 + word l 0 16 / 256 + word l 16 16 % 256 +
      word l 16 16 / 256) % 256 = sum (word l 0 16) (word l 16 16) := by
    rw [sum]
    omega
  simp only [read, hlow, hhigh, hcheck]
  refine Prod.ext ?_ rfl
  by_cases h : sum (word l 0 16) (word l 16 16) = word l 32 8
  · rw [if_pos h, if_neg (by omega)]
  · rw [if_neg h, if_pos (by omega)]

theorem read_frame {h m : ℕ} (hh : h < 2 ^ 16) (hm : m < 2 ^ 16) (hl : Sends l (frame h m)) :
    read l = (some h, if m > 32768 then -((m : ℤ) - 32768) else m) := by
  have hsum : sum h m < 256 := Nat.mod_lt _ (by decide)
  have hhumidity : word l 0 16 = h := by
    rw [hl.word (by decide), frame]
    omega
  have htemperature : word l 16 16 = m := by
    rw [hl.word (by decide), frame]
    omega
  have hcheck : word l 32 8 = sum h m := by
    rw [hl.word (by decide), frame]
    omega
  rw [read_eq, hhumidity, htemperature, hcheck, if_pos rfl]

/-- The five bytes. -/
def byte (l : ℕ → ℕ) (k : ℕ) : ℕ := word l (8 * k) 8

theorem byte_lt (l : ℕ → ℕ) (k : ℕ) : byte l k < 256 := word_lt l (8 * k) 8

theorem sum_bytes (l : ℕ → ℕ) : sum (word l 0 16) (word l 16 16) =
    (byte l 0 + byte l 1 + byte l 2 + byte l 3) % 256 := by
  have hhumidity : word l 0 16 = byte l 0 * 256 + byte l 1 := word_add l 0 8 8
  have htemperature : word l 16 16 = byte l 2 * 256 + byte l 3 := word_add l 16 8 8
  have h1 := byte_lt l 1
  have h3 := byte_lt l 3
  rw [hhumidity, htemperature, sum]
  omega

/-- A humidity is returned when the sum is right. -/
theorem read_fst_ne_none_iff (l : ℕ → ℕ) : (read l).1 ≠ none ↔
    (byte l 0 + byte l 1 + byte l 2 + byte l 3) % 256 = byte l 4 := by
  rw [read_eq, sum_bytes]
  change ite _ _ _ ≠ none ↔ _ = word l 32 8
  split_ifs with h
  · simp [h]
  · simp [h]

/-- An error in one byte is noticed. -/
theorem read_error {h m i j : ℕ} (hh : h < 2 ^ 16) (hm : m < 2 ^ 16) (hl : Sends l (frame h m))
    (hsame : SameBut j l l') (hi : 0 < i ∧ i ≤ 40) (herror : ¬ (l i > 4 ↔ l' i > 4)) :
    (read l').1 = none := by
  have hright : (byte l 0 + byte l 1 + byte l 2 + byte l 3) % 256 = byte l 4 := by
    rw [← read_fst_ne_none_iff, read_frame hh hm hl]
    exact Option.some_ne_none h
  have hj : 8 * j < i ∧ i ≤ 8 * j + 8 := by
    by_contra hout
    exact herror (hsame i hi.1 hi.2 hout)
  have hbyte : ∀ k < 5, k ≠ j → byte l k = byte l' k := by
    intro k hk hkj
    exact word_inj.2 fun n hlow hhigh => hsame n (by omega) (by omega) (by omega)
  have hother : byte l j ≠ byte l' j := fun heq => herror (word_inj.1 heq i hj.1 hj.2)
  by_contra hread
  rw [← ne_eq, read_fst_ne_none_iff] at hread
  have hlt := byte_lt l j
  have hlt' := byte_lt l' j
  have h0 := hbyte 0 (by decide)
  have h1 := hbyte 1 (by decide)
  have h2 := hbyte 2 (by decide)
  have h3 := hbyte 3 (by decide)
  have h4 := hbyte 4 (by decide)
  obtain rfl | rfl | rfl | rfl | rfl : j = 0 ∨ j = 1 ∨ j = 2 ∨ j = 3 ∨ j = 4 := by omega
  all_goals omega

/-- **What the thermometer says is what is read.** The humidity is the one that is sent, and so is
the temperature, above and below zero; minus zero is read as 32768. If any pulses of one byte are
garbled, no humidity is returned. -/
theorem read_reading {h m : ℕ} (hh : h < 2 ^ 16) (hm : m < 2 ^ 16) (hl : Sends l (frame h m)) :
    (∀ x : ℤ, x.natAbs < 2 ^ 15 → signed x = m → read l = (some h, x)) ∧
    (m = 2 ^ 15 → read l = (some h, 32768)) ∧
    ∀ l' j, SameBut j l l' → (∃ i, 0 < i ∧ i ≤ 40 ∧ ¬ (l i > 4 ↔ l' i > 4)) →
      (read l').1 = none := by
  refine ⟨?_, ?_, ?_⟩
  · intro x hx hsigned
    rw [read_frame hh hm hl, ← hsigned, signed]
    refine Prod.ext rfl ?_
    dsimp only
    split_ifs <;> omega
  · rintro rfl
    exact read_frame hh hm hl
  · rintro l' j hsame ⟨i, hlow, hhigh, herror⟩
    exact read_error hh hm hl hsame ⟨hlow, hhigh⟩ herror

/-! ## A frost -/

/-- Pulses for the bits of a number. -/
def pulses (x : ℕ) (i : ℕ) : ℕ := if x.testBit (40 - i) then 7 else 2

theorem sends_pulses (x : ℕ) : Sends (pulses x) x := by
  intro i _ _
  unfold pulses
  split_ifs with h <;> simp [h]

/-- A humidity of 65.2 percent and 10.1 degrees below zero, and the same with a garbled pulse. -/
theorem read_reading_frost : read (pulses (frame 652 (signed (-101)))) = (some 652, -101) ∧
    (read (Function.update (pulses (frame 652 (signed (-101)))) 20 9)).1 = none := by
  obtain ⟨hread, -, herror⟩ := read_reading (h := 652) (by decide) (by decide)
    (sends_pulses (frame 652 (signed (-101))))
  refine ⟨hread (-101) (by decide) rfl, herror _ 2 ?_ ⟨20, by decide, by decide, ?_⟩⟩
  · intro i _ _ hout
    rw [Function.update_of_ne (by omega)]
  · decide

end PconTng.Dht22
