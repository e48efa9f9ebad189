import Mathlib.Data.Nat.Digits.Lemmas
import PconTng.Foundations.Rounding
import PconTng.Scon.Numeral
import PconTng.Scon.RoundTrip

/-!
# What a sensor posts

`post.lua` runs on a sensor. Every minute it reads its thermometer, in tenths of a degree and of a
percent, and sends the reading to Scon in the query string of a request. Lua writes a number with
the digits that it needs, so there is no dot in a whole one, and `new_strtof` reads behind the end
of such a numeral.

A reading comes through exactly when neither of its two numbers is whole (`post_stored`): every
fifth degree centigrade and every tenth of the humidities are lost. What is stored is as near to the
reading as the sums of `new_strtof`, which are made in `float`, can be (`Near`).
-/

namespace PconTng.Esp8266

open CMemory CArray Scon

/-! ## Numbers as Lua writes them -/

/-- The last digit of a number. -/
def lastDigit (d : ℕ) : Fin 10 := ⟨d % 10, Nat.mod_lt d (by decide)⟩

/-- The decimal digits of a number. -/
def decimal (n : ℕ) : List (Fin 10) :=
  if n = 0 then [lastDigit n] else (Nat.digits 10 n).reverse.map lastDigit

theorem decimal_ne_nil (n : ℕ) : decimal n ≠ [] := by
  unfold decimal
  split_ifs with h
  · exact List.cons_ne_nil _ _
  · simp [Nat.digits_ne_nil_iff_ne_zero.2 h]

theorem whole_decimal (n : ℕ) : Positional.whole 10 ((decimal n).map Fin.val) = n := by
  unfold decimal
  split_ifs with h
  · rw [h]
    rfl
  · have hval : ((Nat.digits 10 n).reverse.map lastDigit).map Fin.val =
        (Nat.digits 10 n).reverse := by
      rw [List.map_map]
      refine (List.map_congr_left fun d hd => ?_).trans (List.map_id _)
      exact Nat.mod_eq_of_lt (Nat.digits_lt_base (by decide) (List.mem_reverse.1 hd))
    rw [hval, Positional.whole, List.reverse_reverse, Nat.ofDigits_digits]

/-- The number of hundredths, as `%.14g` writes it: without a zero at the end of the fraction, and
without a dot if it is whole. -/
def hundredths (x : ℤ) : Numeral where
  neg := x < 0
  whole := decimal (x.natAbs / 100)
  fraction :=
    if x.natAbs % 100 = 0 then none
    else if x.natAbs % 10 = 0 then some [lastDigit (x.natAbs / 10)]
    else some [lastDigit (x.natAbs / 10), lastDigit x.natAbs]
  whole_ne_nil := decimal_ne_nil _

example : (hundredths 7124).text = str "71.24" := by decide +kernel

example : (hundredths (-50)).text = str "-0.5" := by decide +kernel

theorem hundredths_fraction (x : ℤ) : (hundredths x).fraction.getD [] = [] ↔ 100 ∣ x := by
  simp only [hundredths]
  split_ifs <;> simp <;> omega

theorem lastDigit_tens (n : ℕ) : (lastDigit (n / 10)).val = n % 100 / 10 := by
  simp only [lastDigit]
  omega

theorem hundredths_fraction_value (x : ℤ) :
    Positional.fraction ℚ 10 (((hundredths x).fraction.getD []).map Fin.val) =
      (x.natAbs % 100 : ℕ) / 100 := by
  have hlt : x.natAbs % 100 < 100 := Nat.mod_lt _ (by decide)
  simp only [hundredths]
  split_ifs with hwhole htenth
  · rw [hwhole]
    simp [Positional.fraction_nil]
  · obtain ⟨d, hd⟩ : ∃ d, x.natAbs % 100 = 10 * d := ⟨x.natAbs % 100 / 10, by omega⟩
    have hdiv : x.natAbs % 100 / 10 = d := by omega
    rw [Option.getD_some, List.map_singleton, lastDigit_tens, hdiv, hd,
      Positional.fraction_cons (by norm_num), Positional.fraction_nil]
    push_cast
    ring
  · have hsum : x.natAbs % 100 = 10 * (x.natAbs % 100 / 10) + x.natAbs % 10 := by omega
    have hcast : ((x.natAbs % 100 : ℕ) : ℚ) =
        10 * (x.natAbs % 100 / 10 : ℕ) + (x.natAbs % 10 : ℕ) := by
      exact_mod_cast hsum
    rw [Option.getD_some, List.map_cons, List.map_singleton, lastDigit_tens,
      Positional.fraction_cons (by norm_num), Positional.fraction_cons (by norm_num),
      Positional.fraction_nil, hcast]
    simp only [lastDigit]
    push_cast
    ring

theorem hundredths_sign (x : ℤ) : (hundredths x).sign * (x.natAbs : ℤ) = x := by
  simp only [Numeral.sign, hundredths, decide_eq_true_eq]
  split_ifs <;> omega

theorem hundredths_value (x : ℤ) : (hundredths x).value = x / 100 := by
  have habs : (x.natAbs : ℚ) = 100 * (x.natAbs / 100 : ℕ) + (x.natAbs % 100 : ℕ) := by
    exact_mod_cast (Nat.div_add_mod x.natAbs 100).symm
  have hx : (x : ℚ) = (hundredths x).sign * (x.natAbs : ℚ) := by
    rw [← Int.cast_natCast, ← Int.cast_mul, hundredths_sign]
  rw [Numeral.value, hundredths_fraction_value, hx]
  simp only [hundredths, whole_decimal]
  rw [habs]
  ring

/-! ## The message -/

/-- What `dht.read` answers. -/
inductive Status
  | ok
  | errorChecksum
  | errorTimeout
  deriving DecidableEq

/-- `rdDHT22`, from the tenths that are read to hundredths: the temperature in degrees Fahrenheit,
or as it was read after an error, and the humidity. -/
def rdDHT22 (status : Status) (temp humi : ℤ) : ℤ × ℤ :=
  (if status = .ok then 18 * temp + 3200 else 10 * temp, 10 * humi)

/-- The message that is sent. -/
def mess (sensor : ℕ) (temp humidity : ℤ) : List Byte :=
  str "GET /cgi-bin/Scon?sensor=" ++ (decimal sensor).map digit ++
    str "&temp=" ++ (hundredths temp).text ++ str "&humid=" ++ (hundredths humidity).text ++
    str "\r\n"

/-- What the web server passes on as the query string: the rest of the line behind the first
question mark. -/
def queryString (mess : List Byte) : List Byte :=
  ((mess.dropWhile (· ≠ 63)).drop 1).takeWhile fun c => c ≠ 13 ∧ c ≠ 32

/-! ## The query string -/

/-- A character of a numeral. -/
def Plain (c : Byte) : Prop := c ∉ [(0 : Byte), 13, 32, percent, plus, ampersand]

theorem plain_digit (d : Fin 10) : Plain (digit d) := by
  revert d
  unfold Plain
  decide

theorem plain_digits (ds : List (Fin 10)) : ∀ c ∈ ds.map digit, Plain c := by
  intro c hc
  obtain ⟨d, -, rfl⟩ := List.mem_map.1 hc
  exact plain_digit d

theorem plain_text (n : Numeral) : ∀ c ∈ n.text, Plain c := by
  intro c hc
  simp only [Numeral.text, Numeral.signText, Numeral.dotText, List.mem_append] at hc
  rcases hc with (hc | hc) | hc
  · split_ifs at hc
    · rw [List.mem_singleton.1 hc]
      unfold Plain
      decide
    · cases hc
  · exact plain_digits _ c hc
  · cases hf : n.fraction with
    | none =>
      rw [hf] at hc
      cases hc
    | some ds =>
      rw [hf, Option.elim_some] at hc
      obtain rfl | hc := List.mem_cons.1 hc
      · unfold Plain
        decide
      · exact plain_digits _ c hc

theorem encodes_plain {v : List Byte} (h : ∀ c ∈ v, Plain c) : Encodes v v := by
  induction v with
  | nil => exact .nil
  | cons c v ih =>
    rw [List.forall_mem_cons] at h
    refine .self (fun hmem => h.1 ?_) (ih h.2)
    simp only [List.mem_cons, List.not_mem_nil, or_false] at hmem ⊢
    tauto

/-- A field that holds a number. -/
def field (name : String) (hname : equals ∉ str name ∧ ampersand ∉ str name) (v : List Byte)
    (h : ∀ c ∈ v, Plain c) : Field where
  name := str name
  value := v
  code := v
  noEquals := hname.1
  noAmpersand := hname.2
  noNul hmem := h 0 hmem (by decide)
  encodes := encodes_plain h

/-- The fields of a message. -/
def sent (sensor : ℕ) (temp humidity : ℤ) : List Field :=
  [field "sensor" (by decide) _ (plain_digits (decimal sensor)),
   field "temp" (by decide) _ (plain_text (hundredths temp)),
   field "humid" (by decide) _ (plain_text (hundredths humidity))]

theorem mess_eq (sensor : ℕ) (temp humidity : ℤ) : mess sensor temp humidity =
    str "GET /cgi-bin/Scon" ++ 63 :: (query (sent sensor temp humidity) ++ [13, 10]) := by
  have hget : str "GET /cgi-bin/Scon?sensor=" =
      str "GET /cgi-bin/Scon" ++ 63 :: (str "sensor" ++ [equals]) := by decide
  have htemp : str "&temp=" = ampersand :: (str "temp" ++ [equals]) := by decide
  have hhumid : str "&humid=" = ampersand :: (str "humid" ++ [equals]) := by decide
  have hend : str "\r\n" = [13, 10] := by decide
  rw [mess, hget, htemp, hhumid, hend]
  simp [query, sent, field, Field.text, List.intercalate_cons_cons]

/-- Nothing ends the query string too soon. -/
theorem query_sent_plain (sensor : ℕ) (temp humidity : ℤ) :
    ∀ c ∈ query (sent sensor temp humidity), c ≠ 13 ∧ c ≠ 32 := by
  have hplain : ∀ {v : List Byte}, (∀ c ∈ v, Plain c) → ∀ c ∈ v, c ≠ 13 ∧ c ≠ 32 := by
    intro v hv c hc
    have h := hv c hc
    simp only [Plain, List.mem_cons, not_or] at h
    exact ⟨h.2.1, h.2.2.1⟩
  have hnames : ∀ c ∈ str "sensor" ++ str "temp" ++ str "humid" ++ [equals, ampersand],
      c ≠ 13 ∧ c ≠ 32 := List.forall_iff_forall_mem.1 (by decide)
  simp only [query, sent, field, Field.text, List.map_cons, List.map_nil,
    List.intercalate_cons_cons, List.intercalate_singleton, List.forall_mem_append,
    List.forall_mem_cons] at hnames ⊢
  obtain ⟨⟨⟨hsensor, htemp⟩, hhumid⟩, hequals, hampersand, -⟩ := hnames
  exact ⟨⟨⟨hsensor, hequals, hplain (plain_digits _)⟩, hampersand, List.forall_mem_nil _⟩,
    ⟨⟨htemp, hequals, hplain (plain_text _)⟩, hampersand, List.forall_mem_nil _⟩,
    hhumid, hequals, hplain (plain_text _)⟩

theorem queryString_mess (sensor : ℕ) (temp humidity : ℤ) :
    queryString (mess sensor temp humidity) = query (sent sensor temp humidity) := by
  have hget : ∀ c ∈ str "GET /cgi-bin/Scon", decide (c ≠ 63) = true :=
    List.forall_iff_forall_mem.1 (by decide)
  have hquery : ∀ c ∈ query (sent sensor temp humidity), decide (c ≠ 13 ∧ c ≠ 32) = true :=
    fun c hc => decide_eq_true (query_sent_plain sensor temp humidity c hc)
  rw [queryString, mess_eq, List.dropWhile_append_of_pos hget,
    List.dropWhile_cons_of_neg (by decide), List.drop_one, List.tail_cons,
    List.takeWhile_append_of_pos hquery, List.takeWhile_cons_of_neg (by decide), List.append_nil]

/-! ## What Scon makes of it -/

/-- An integer of 24 bits is converted without rounding. -/
theorem floatOfInt_of_lt {n : ℤ} (h : n.natAbs < 2 ^ 24) : floatOfInt n = n := by
  refine floatOfInt_of_dvd ?_
  have hlog : Nat.log2 n.natAbs - 23 = 0 := by
    obtain hn | hn := eq_or_ne n.natAbs 0
    · rw [hn]
      rfl
    · have := (Nat.log2_lt hn).2 h
      omega
  rw [hlog, pow_zero]
  exact one_dvd _

/-- What `new_strtof` makes of a numeral with a digit behind the dot. -/
def sum (host : Host) (n : Numeral) : ℚ :=
  (n.fraction.getD []).zipIdx.foldl (fun f (d, i) => host.accumulate f d.val i n.sign)
    (floatOfInt n.intPart)

theorem newStrtof_text (host : Host) (n : Numeral) (h : n.FitsLong) :
    newStrtof host.accumulate n.text =
      if n.fraction.getD [] = [] then .error .fault else .ok (sum host n) := by
  rw [newStrtof_eq]
  split_ifs with hnil
  · exact newStrtofWith_of_not_fraction n _ _ hnil
  · cases hf : n.fraction with
    | none =>
      rw [hf] at hnil
      exact absurd rfl hnil
    | some ds =>
      rw [hf, Option.getD_some] at hnil
      rw [newStrtofWith_of_fraction n _ _ h hf hnil, sum, hf, Option.getD_some]

theorem natAbs_intPart (x : ℤ) : (hundredths x).intPart.natAbs = x.natAbs / 100 := by
  have hsign : (hundredths x).sign.natAbs = 1 := by
    unfold Numeral.sign
    split_ifs <;> rfl
  rw [Numeral.intPart, Int.natAbs_mul, hsign, one_mul, Int.natAbs_natCast]
  exact whole_decimal _

theorem newStrtof_hundredths (host : Host) {x : ℤ} (hx : x.natAbs < 100 * 2 ^ 23) :
    newStrtof host.accumulate (hundredths x).text =
      if 100 ∣ x then .error .fault else .ok (sum host (hundredths x)) := by
  have habs := natAbs_intPart x
  have hfits : (hundredths x).FitsLong := by
    unfold Numeral.FitsLong
    omega
  rw [newStrtof_text host _ hfits, if_congr (hundredths_fraction x) rfl rfl]

/-! ### The arithmetic of the machine -/

/-- The sums of the machine are the exact ones up to the rounding of the result to `float`, which
has 24 digits, and the much smaller errors of the arithmetic in `double` before. -/
def Rounds (host : Host) : Prop := ∀ (f : ℚ) (d : ℤ) (i : ℕ) (sign : ℤ), |f| ≤ 2 ^ 31 → 0 ≤ d →
  d ≤ 9 → sign = 1 ∨ sign = -1 → |host.accumulate f d i sign - exactSum f d i sign| ≤
    (|f| + 1) / 2 ^ 23

/-- As near as two sums leave it. -/
def Near (x y : ℚ) : Prop := |x - y| ≤ (|y| + 2) / 2 ^ 22

variable {host : Host}

/-- The first digit behind the dot. -/
theorem near_one {f₀ f₁ t₁ : ℚ} (h₁ : |f₁ - (f₀ + t₁)| ≤ (|f₀| + 1) / 2 ^ 23)
    (hsame : |f₀| + |t₁| = |f₀ + t₁|) : Near f₁ (f₀ + t₁) := by
  have ht₁ := abs_nonneg t₁
  have hf₀ := abs_nonneg f₀
  unfold Near
  rw [← hsame]
  linarith

/-- The second one. -/
theorem near_two {f₀ f₁ f₂ t₁ t₂ : ℚ} (h₁ : |f₁ - (f₀ + t₁)| ≤ (|f₀| + 1) / 2 ^ 23)
    (h₂ : |f₂ - (f₁ + t₂)| ≤ (|f₁| + 1) / 2 ^ 23) (hf₀ : |f₀| ≤ 2 ^ 23)
    (hsame : |f₀| + |t₁| + |t₂| = |f₀ + t₁ + t₂|) : Near f₂ (f₀ + t₁ + t₂) := by
  have hf₁ : |f₁| ≤ |f₀| + |t₁| + (|f₀| + 1) / 2 ^ 23 := by
    have hsplit : f₁ = f₀ + t₁ + (f₁ - (f₀ + t₁)) := by ring
    rw [hsplit]
    exact (abs_add_three f₀ t₁ _).trans (add_le_add_right h₁ _)
  have herror : |f₂ - (f₀ + t₁ + t₂)| ≤ |f₂ - (f₁ + t₂)| + |f₁ - (f₀ + t₁)| := by
    have hsplit : f₂ - (f₀ + t₁ + t₂) = f₂ - (f₁ + t₂) + (f₁ - (f₀ + t₁)) := by ring
    rw [hsplit]
    exact abs_add_le _ _
  have ht₁ := abs_nonneg t₁
  have ht₂ := abs_nonneg t₂
  unfold Near
  rw [← hsame]
  linarith

/-- The digits of a numeral all count in the direction of its sign. -/
theorem abs_sign_mul_add {s : ℤ} (hs : s = 1 ∨ s = -1) {a b : ℚ} (ha : 0 ≤ a) (hb : 0 ≤ b) :
    |s * a| + |s * b| = |s * a + s * b| := by
  have habs : |(s : ℚ)| = 1 := by
    rcases hs with rfl | rfl <;> norm_num
  rw [← mul_add, abs_mul, abs_mul, abs_mul, habs, abs_of_nonneg ha, abs_of_nonneg hb,
    abs_of_nonneg (add_nonneg ha hb)]
  ring

theorem Near.abs_le {x y : ℚ} (h : Near x y) : |x| ≤ 2 * |y| + 2 := by
  have hy := abs_nonneg y
  have hsub := (abs_sub_abs_le_abs_sub x y).trans h
  linarith

theorem Numeral.sign_eq (n : Numeral) : n.sign = 1 ∨ n.sign = -1 := by
  unfold Numeral.sign
  split_ifs
  · exact .inr rfl
  · exact .inl rfl

theorem Rounds.digit (h : Rounds host) (n : Numeral) {f : ℚ} (hf : |f| ≤ 2 ^ 31) (d : Fin 10)
    (i : ℕ) : |host.accumulate f d.val i n.sign - (f + n.sign * (d.val / 10 ^ (i + 1)))| ≤
      (|f| + 1) / 2 ^ 23 := by
  have hstep := h f d.val i n.sign hf (by omega) (by omega) (Numeral.sign_eq n)
  have hexact : exactSum f d.val i n.sign = f + n.sign * (d.val / 10 ^ (i + 1)) := by
    have hpow : (10 : ℚ) ^ (-(i + 1 : ℤ)) = (10 ^ (i + 1))⁻¹ := by
      rw [zpow_neg]
      exact_mod_cast rfl
    rw [exactSum, hpow, Int.cast_natCast]
    ring
  rwa [hexact] at hstep

/-- A numeral with at most two digits behind the dot is read as nearly what it denotes. -/
theorem Rounds.near (h : Rounds host) (n : Numeral) (hfits : n.intPart.natAbs < 2 ^ 23)
    (hlen : (n.fraction.getD []).length ≤ 2) : Near (sum host n) n.value := by
  have hs := Numeral.sign_eq n
  have hint : floatOfInt n.intPart =
      n.sign * (Positional.whole 10 (n.whole.map Fin.val) : ℕ) := by
    rw [floatOfInt_of_lt (hfits.trans (by decide)), Numeral.intPart]
    push_cast
    rfl
  have hf₀ : |floatOfInt n.intPart| < 2 ^ 23 := by
    rw [floatOfInt_of_lt (hfits.trans (by decide)), ← Int.cast_abs, Int.abs_eq_natAbs]
    exact_mod_cast hfits
  have hwhole : (0 : ℚ) ≤ (Positional.whole 10 (n.whole.map Fin.val) : ℕ) := Nat.cast_nonneg _
  generalize hw : ((Positional.whole 10 (n.whole.map Fin.val) : ℕ) : ℚ) = w at hint hwhole
  rcases hds : n.fraction.getD [] with _ | ⟨d₁, _ | ⟨d₂, _ | ⟨d₃, ds⟩⟩⟩
  · have hvalue : n.value = floatOfInt n.intPart := by
      rw [Numeral.value, hds, hint, hw]
      simp [Positional.fraction_nil]
    rw [sum, hds, hvalue, Near]
    simp only [List.zipIdx_nil, List.foldl_nil, sub_self, abs_zero]
    positivity
  · have h₁ := h.digit n (hf₀.le.trans (by norm_num)) d₁ 0
    have hvalue : n.value = floatOfInt n.intPart + n.sign * (d₁.val / 10 ^ (0 + 1)) := by
      rw [Numeral.value, hds, hint, hw]
      simp [Positional.fraction_cons, Positional.fraction_nil]
      ring
    have hsame : |floatOfInt n.intPart| + |(n.sign : ℚ) * (d₁.val / 10 ^ (0 + 1))| =
        |floatOfInt n.intPart + n.sign * (d₁.val / 10 ^ (0 + 1))| := by
      rw [hint]
      exact abs_sign_mul_add hs hwhole (by positivity)
    rw [sum, hds, hvalue]
    exact near_one h₁ hsame
  · have h₁ := h.digit n (hf₀.le.trans (by norm_num)) d₁ 0
    have hd₁ : (0 : ℚ) ≤ d₁.val / 10 ^ (0 + 1) := by positivity
    have hd₂ : (0 : ℚ) ≤ d₂.val / 10 ^ (1 + 1) := by positivity
    have hsame₁ := abs_sign_mul_add hs hwhole hd₁
    have hsame := abs_sign_mul_add hs (add_nonneg hwhole hd₁) hd₂
    rw [mul_add, ← hsame₁, ← hint] at hsame
    rw [← hint] at hsame₁
    have ht₁ : |(n.sign : ℚ) * (d₁.val / 10 ^ (0 + 1))| ≤ 1 := by
      have hd : (d₁.val : ℚ) ≤ 9 := by exact_mod_cast Nat.le_of_lt_succ d₁.isLt
      rw [abs_mul, abs_of_nonneg hd₁]
      rcases hs with hs | hs <;> rw [hs] <;> norm_num <;> linarith
    have hf₁ := (near_one h₁ hsame₁).abs_le
    have h₂ := h.digit n (f := host.accumulate (floatOfInt n.intPart) d₁.val 0 n.sign)
      (by rw [← hsame₁] at hf₁; linarith) d₂ 1
    have hvalue : n.value = floatOfInt n.intPart + n.sign * (d₁.val / 10 ^ (0 + 1)) +
        n.sign * (d₂.val / 10 ^ (1 + 1)) := by
      rw [Numeral.value, hds, hint, hw]
      simp [Positional.fraction_cons, Positional.fraction_nil]
      ring
    rw [sum, hds, hvalue]
    exact near_two h₁ h₂ hf₀.le hsame
  · rw [hds] at hlen
    simp at hlen

/-- The number of hundredths that is sent is nearly the one that is stored. -/
theorem Rounds.near_hundredths (h : Rounds host) {x : ℤ} (hx : x.natAbs < 100 * 2 ^ 23) :
    Near (sum host (hundredths x)) (x / 100) := by
  rw [← hundredths_value]
  refine h.near _ ?_ ?_
  · rw [natAbs_intPart]
    omega
  · simp only [hundredths]
    split_ifs <;> simp

theorem Near.ne_zero {t : ℚ} {x : ℤ} (h : Near t (x / 100)) (hx : ¬ 100 ∣ x) : t ≠ 0 := by
  rintro rfl
  have hne : x ≠ 0 := by
    rintro rfl
    exact hx (dvd_zero _)
  have hone : (1 : ℚ) ≤ |(x : ℚ)| := by exact_mod_cast Int.one_le_abs hne
  rw [Near, zero_sub, abs_neg, abs_div, abs_of_pos (by norm_num : (0 : ℚ) < 100)] at h
  linarith

/-! ### A request -/

/-- A field that the query string has is found in it. -/
theorem cgigetval_field (behind : Byte) {fs : List Field} {fieldname : List Byte} {f : Field}
    (h : fs.find? (fun f => f.name = fieldname) = some f) :
    cgigetval behind (some (query fs)) fieldname = .ok (some f.value) := by
  obtain ⟨k, hk⟩ := cgiLoop_query behind fieldname fs
  rw [h] at hk
  exact cgigetval_of_loop behind hk

theorem strtol_decimal {n : ℕ} (hn : n < 2 ^ 31) : strtol ((decimal n).map digit) = n := by
  rw [strtol_unsigned (decimal_ne_nil n), whole_decimal]
  omega

/-- **What Scon reads of a message**: nothing, when one of its numbers is whole or the sensor is the
number 0. -/
theorem readRequest_mess (hhost : Rounds host) (sensor : ℕ) (temp humidity : ℤ)
    (hsensor : sensor < 2 ^ 31) (htemp : temp.natAbs < 100 * 2 ^ 23)
    (hhumidity : humidity.natAbs < 100 * 2 ^ 23) :
    (readRequest host (some (queryString (mess sensor temp humidity)))).toOption =
      if sensor ≠ 0 ∧ ¬ 100 ∣ temp ∧ ¬ 100 ∣ humidity then
        some ⟨sensor, sum host (hundredths temp), sum host (hundredths humidity)⟩
      else none := by
  have hnum := strtol_decimal hsensor
  have hfind : ∀ (name : String) {f : Field},
      (sent sensor temp humidity).find? (fun f => f.name = str name) = some f →
      cgigetval host.behind (some (query (sent sensor temp humidity))) (str name) =
        .ok (some f.value) := fun _ _ => cgigetval_field host.behind
  unfold readRequest
  rw [queryString_mess, hfind "sensor" rfl, hfind "temp" rfl, hfind "humid" rfl]
  simp only [field, hnum, newStrtof_hundredths host htemp, newStrtof_hundredths host hhumidity,
    bind, Except.bind]
  by_cases h0 : sensor = 0
  · have hno : ¬ (sensor ≠ 0 ∧ ¬ 100 ∣ temp ∧ ¬ 100 ∣ humidity) := fun h => h.1 h0
    rw [if_pos (by exact_mod_cast h0), if_neg hno]
    rfl
  rw [if_neg (by exact_mod_cast h0), if_neg (by omega)]
  by_cases ht : 100 ∣ temp
  · have hno : ¬ (sensor ≠ 0 ∧ ¬ 100 ∣ temp ∧ ¬ 100 ∣ humidity) := fun h => h.2.1 ht
    rw [if_pos ht, if_neg hno]
    rfl
  rw [if_neg ht]
  dsimp only
  rw [if_neg ((hhost.near_hundredths htemp).ne_zero ht)]
  by_cases hh : 100 ∣ humidity
  · have hno : ¬ (sensor ≠ 0 ∧ ¬ 100 ∣ temp ∧ ¬ 100 ∣ humidity) := fun h => h.2.2 hh
    rw [if_pos hh, if_neg hno]
    rfl
  have hall : sensor ≠ 0 ∧ ¬ 100 ∣ temp ∧ ¬ 100 ∣ humidity := ⟨h0, ht, hh⟩
  rw [if_neg hh]
  dsimp only
  rw [if_neg ((hhost.near_hundredths hhumidity).ne_zero hh), if_pos hall]
  rfl

/-! ## Posts -/

/-- A reading of a thermometer, in tenths of a degree centigrade and of a percent, that is posted,
and the time when Scon gets it, or -1 when there is none. -/
structure Sample where
  sensor : Fin numberOfSensors
  temp : ℤ
  humi : ℤ
  now : ℤ
  deriving DecidableEq

namespace Sample

variable (p : Sample)

/-- The numbers are those of a thermometer. -/
structure Measured : Prop where
  temp : p.temp.natAbs < 2 ^ 15
  humi : p.humi.natAbs < 2 ^ 16

/-- The message of a sensor whose thermometer has been read. -/
def message : List Byte :=
  mess p.sensor (rdDHT22 .ok p.temp p.humi).1 (rdDHT22 .ok p.temp p.humi).2

/-- There is a sensor with that number, and neither number is whole when it is sent. -/
def ComesThrough : Prop := p.sensor ≠ 0 ∧ ¬ 50 ∣ p.temp ∧ ¬ 10 ∣ p.humi

instance : Decidable p.ComesThrough := inferInstanceAs (Decidable (_ ∧ _ ∧ _))

/-- It comes through at some time. -/
def Arrives : Prop := p.ComesThrough ∧ p.now ≠ -1

instance : Decidable p.Arrives := inferInstanceAs (Decidable (_ ∧ _))

/-- The temperature in degrees Fahrenheit. -/
def fahrenheit : ℚ := p.temp / 10 * 9 / 5 + 32

/-- The temperature as it is stored. -/
def storedTemp (host : Host) : ℚ := sum host (hundredths (18 * p.temp + 3200))

/-- The humidity as it is stored. -/
def storedHumidity (host : Host) : ℚ := sum host (hundredths (10 * p.humi))

variable {p}

theorem fahrenheit_eq : p.fahrenheit = ((18 * p.temp + 3200 : ℤ) : ℚ) / 100 := by
  unfold fahrenheit
  push_cast
  ring

theorem Measured.near_temp (h : p.Measured) (hhost : Rounds host) :
    Near (p.storedTemp host) p.fahrenheit := by
  have htemp := h.temp
  rw [fahrenheit_eq]
  exact hhost.near_hundredths (by omega)

/-- What Scon reads of a post. -/
theorem Measured.readRequest (h : p.Measured) (hhost : Rounds host) :
    (Scon.readRequest host (some (queryString p.message))).toOption =
      if p.ComesThrough then some ⟨p.sensor.val, p.storedTemp host, p.storedHumidity host⟩
      else none := by
  have htemp := h.temp
  have hhumi := h.humi
  have hread := readRequest_mess hhost p.sensor (18 * p.temp + 3200) (10 * p.humi)
    (p.sensor.isLt.trans (by decide)) (by omega) (by omega)
  have hthrough : p.ComesThrough ↔
      p.sensor.val ≠ 0 ∧ ¬ 100 ∣ 18 * p.temp + 3200 ∧ ¬ 100 ∣ 10 * p.humi := by
    unfold ComesThrough
    rw [ne_eq, Fin.ext_iff]
    refine and_congr_right fun _ => ?_
    omega
  rw [if_congr hthrough rfl rfl]
  exact hread

end Sample

/-- A reading in shared memory. -/
def stored (sDat : Vector SenDat numberOfSensors) (n : Fin numberOfSensors) (temp humid : ℚ)
    (now : ℤ) : Vector SenDat numberOfSensors :=
  sDat.set n { sDat.get n with ts := now, sensorId := n.val, temp := temp, humidity := humid }

/-- Without a time only the failed time is stored. -/
def untimed (sDat : Vector SenDat numberOfSensors) (n : Fin numberOfSensors) :
    Vector SenDat numberOfSensors :=
  sDat.set n { sDat.get n with ts := -1 }

theorem moveReading_eq (sDat : Vector SenDat numberOfSensors) (n : Fin numberOfSensors)
    (now : ℤ) (temp humid : ℚ) : moveReading ⟨n.val, temp, humid⟩ now sDat =
      .ok (if now = -1 then untimed sDat n else stored sDat n temp humid now) := by
  simp only [moveReading, load_natCast _ n.isLt, bind, Except.bind]
  split_ifs with hnow
  · rw [hnow, store_natCast _ n.isLt]
    rfl
  · rw [store_natCast _ n.isLt]
    rfl

/-- What `Scon` does with a message: it reads the request, and stores the reading. -/
def serve (host : Host) (now : ℤ) (message : List Byte) (sDat : Vector SenDat numberOfSensors) :
    Option (Vector SenDat numberOfSensors) := do
  let r ← (readRequest host (some (queryString message))).toOption
  (moveReading r now sDat).toOption

variable {p : Sample}

theorem Sample.Measured.serve (h : p.Measured) (hhost : Rounds host)
    (sDat : Vector SenDat numberOfSensors) : Esp8266.serve host p.now p.message sDat =
      if p.ComesThrough then
        some (if p.now = -1 then untimed sDat p.sensor
          else stored sDat p.sensor (p.storedTemp host) (p.storedHumidity host) p.now)
      else none := by
  rw [Esp8266.serve, h.readRequest hhost]
  split_ifs with hthrough hnow
  · exact congrArg Except.toOption ((moveReading_eq _ _ _ _ _).trans (congrArg _ (if_pos hnow)))
  · exact congrArg Except.toOption ((moveReading_eq _ _ _ _ _).trans (congrArg _ (if_neg hnow)))
  · rfl

/-- A machine that rounds every sum to 24 digits. -/
def rounding : Host := ⟨0, fun f d i sign => Rounding.roundTo 24 (exactSum f d i sign)⟩

theorem rounds_rounding : Rounds rounding := by
  intro f d i sign _ h0 h9 hsign
  have herror := Rounding.abs_roundTo_sub_le 24 (exactSum f d i sign)
  have hterm : |(d : ℚ) * 10 ^ (-(i + 1 : ℤ)) * sign| ≤ 1 := by
    have hs : |(sign : ℚ)| = 1 := by rcases hsign with rfl | rfl <;> norm_num
    have hd : |(d : ℚ)| ≤ 9 := by
      rw [abs_of_nonneg (by exact_mod_cast h0)]
      exact_mod_cast h9
    have hpow : |(10 : ℚ) ^ (-(i + 1 : ℤ))| ≤ 1 / 10 := by
      rw [abs_of_pos (zpow_pos (by norm_num) _)]
      calc (10 : ℚ) ^ (-(i + 1 : ℤ)) ≤ 10 ^ (-1 : ℤ) :=
            zpow_le_zpow_right₀ (by norm_num) (by omega)
        _ = 1 / 10 := by norm_num
    rw [abs_mul, abs_mul, hs, mul_one]
    exact (mul_le_mul hd hpow (abs_nonneg _) (by norm_num)).trans (by norm_num)
  have hsum : |exactSum f d i sign| ≤ |f| + 1 := (abs_add_le _ _).trans (add_le_add_right hterm _)
  refine herror.trans ((div_le_div_of_nonneg_right hsum (by norm_num)).trans ?_)
  refine div_le_div_of_nonneg_left (by positivity) (by norm_num) (by norm_num)

end PconTng.Esp8266
