import Mathlib.Data.Rat.Defs
import Mathlib.Data.Vector.Basic
import Mathlib.Tactic.Ring
import PconTng.Foundations.CArray

/-!
# Bytes, integers, floats and strings of C

The memory of a 32 bit little-endian machine, as far as the programs look at it: the bytes of an
`int` and of a `float`, the conversions between the two, and strings.

A string copied into a field that is too short for it goes on in the fields behind. `pokeInt` and
`pokeStr` write as many of the remaining bytes of a string as a field holds and return what is
left for the next one; with nothing left they change nothing.
-/

namespace PconTng

abbrev Byte := UInt8

/-- The bytes of a string constant. -/
def str (s : String) : List Byte := s.toList.map fun c => c.toNat.toUInt8

namespace CMemory

/-! ## Integers -/

/-- The 32 bit integer of which `u` is the unsigned value. -/
def toSigned (u : ℕ) : ℤ := if u < 2 ^ 31 then u else u - 2 ^ 32

/-- The unsigned value of some bytes, the low one first. -/
def unsignedOf (bs : List Byte) : ℕ := bs.foldr (fun b u => b.toNat + 256 * u) 0

def intOfBytes (bs : List Byte) : ℤ := toSigned (unsignedOf bs)

/-- The four bytes of an integer. -/
def intBytes (n : ℤ) : List Byte :=
  let u := (n % 2 ^ 32).toNat
  [u, u / 2 ^ 8, u / 2 ^ 16, u / 2 ^ 24].map UInt8.ofNat

/-! ## Floats

A `float` is the rational number it denotes. -/

/-- The nearest number with a significand of 24 bits, the even one of two: the conversion of an
integer to `float`. -/
def floatOfInt (n : ℤ) : ℚ :=
  let m := n.natAbs
  let unit : ℕ := 2 ^ (Nat.log2 m - 23)
  let q := m / unit
  let r := m % unit
  let up := 2 * r > unit ∨ 2 * r = unit ∧ q % 2 = 1
  (n.sign * (((if up then q + 1 else q) * unit : ℕ) : ℤ) : ℤ)

/-- The conversion of a `float` to `int`: rounding towards zero. -/
def intOfFloat (x : ℚ) : ℤ := x.num.tdiv x.den

/-- The number with the given bits as a finite `float`. -/
def floatOfBits (u : ℕ) : ℚ :=
  let sign : ℚ := if u < 2 ^ 31 then 1 else -1
  let expo : ℕ := u / 2 ^ 23 % 2 ^ 8
  let frac : ℕ := u % 2 ^ 23
  if expo = 0 then sign * frac / 2 ^ 149 else sign * (2 ^ 23 + frac) * 2 ^ expo / 2 ^ 150

/-- The bits of a number that a `float` can hold. -/
def bitsOfFloat (x : ℚ) : ℕ :=
  if x = 0 then 0
  else
    let n := x.num.natAbs
    let k : ℤ := Nat.log2 n - Nat.log2 x.den
    -- the power of two at or below the number
    let e : ℤ := max (-126) (if (n : ℚ) / x.den < (2 : ℚ) ^ k then k - 1 else k)
    let m : ℕ := ((n : ℚ) / x.den / (2 : ℚ) ^ (e - 23)).floor.toNat
    (if x < 0 then 2 ^ 31 else 0) + (e + 126).toNat * 2 ^ 23 + m

@[simp] theorem intOfFloat_intCast (n : ℤ) : intOfFloat n = n := by
  simp [intOfFloat]

/-- An integer that a `float` can hold is converted without rounding. -/
theorem floatOfInt_of_dvd {n : ℤ} (h : 2 ^ (Nat.log2 n.natAbs - 23) ∣ n.natAbs) :
    floatOfInt n = n := by
  have hmod : n.natAbs % 2 ^ (Nat.log2 n.natAbs - 23) = 0 := Nat.mod_eq_zero_of_dvd h
  have hpos : 0 < 2 ^ (Nat.log2 n.natAbs - 23) := Nat.two_pow_pos _
  have hup : ¬ (2 * 0 > 2 ^ (Nat.log2 n.natAbs - 23) ∨ 2 * 0 = 2 ^ (Nat.log2 n.natAbs - 23) ∧
      n.natAbs / 2 ^ (Nat.log2 n.natAbs - 23) % 2 = 1) := by omega
  simp only [floatOfInt, hmod, if_neg hup, Nat.div_mul_cancel h]
  rw [Int.sign_mul_natAbs]

/-- The integer in a field on which the bytes `bs` are written, and the bytes left over. -/
def pokeInt (n : ℤ) : List Byte → ℤ × List Byte
  | [] => (n, [])
  | b :: bs => (intOfBytes ((b :: bs).take 4 ++ (intBytes n).drop (bs.length + 1)), bs.drop 3)

/-- The same for a `float`. -/
def pokeFloat (x : ℚ) : List Byte → ℚ × List Byte
  | [] => (x, [])
  | b :: bs =>
    let (n, rest) := pokeInt (toSigned (bitsOfFloat x)) (b :: bs)
    (floatOfBits (n % 2 ^ 32).toNat, rest)

/-- The characters in a field on which the bytes `bs` are written, and the bytes left over. -/
def pokeStr {n : ℕ} (s : Vector Byte n) (bs : List Byte) : Vector Byte n × List Byte :=
  (Vector.ofFn fun i => bs.getD i s[i], bs.drop n)

@[simp] theorem pokeInt_nil (n : ℤ) : pokeInt n [] = (n, []) := rfl

theorem pokeInt_rest (n : ℤ) (bs : List Byte) : (pokeInt n bs).2 = bs.drop 4 := by
  cases bs <;> rfl

theorem pokeStr_rest {n : ℕ} (s : Vector Byte n) {bs : List Byte} (h : bs.length ≤ n) :
    (pokeStr s bs).2 = [] :=
  List.drop_eq_nil_of_le h

/-- A string that fits is followed by what the field had behind. -/
theorem pokeStr_toList {n : ℕ} (s : Vector Byte n) {bs : List Byte} (h : bs.length ≤ n) :
    (pokeStr s bs).1.toList = bs ++ s.toList.drop bs.length := by
  refine List.ext_getElem ?_ fun i hi hi' => ?_
  · simp only [Vector.length_toList, List.length_append, List.length_drop]
    omega
  · simp only [pokeStr, Vector.getElem_toList, Vector.getElem_ofFn, List.getElem_append]
    split
    · rename_i hlt
      simp [hlt]
    · rename_i hlt
      have hle : bs.length ≤ i := not_lt.1 hlt
      simp [List.getElem?_eq_none hle, Nat.add_sub_cancel' hle]

/-- A string that does not fit fills the field. -/
theorem pokeStr_full {n : ℕ} (s : Vector Byte n) {bs : List Byte} (h : n ≤ bs.length) :
    (pokeStr s bs).1.toList = bs.take n := by
  apply List.ext_getElem
  · rw [Vector.length_toList, List.length_take_of_le h]
  · intro i hi hi'
    rw [Vector.length_toList] at hi
    have hlt : i < bs.length := hi.trans_le h
    simp [pokeStr, hlt]

/-- The empty string ends where it begins. -/
theorem pokeStr_nul {n : ℕ} (s : Vector Byte n) (h : 0 < n) :
    (pokeStr s [0]).1 = s.set 0 0 h := by
  apply Vector.ext
  intro i hi
  rw [Vector.getElem_set]
  cases i with
  | zero => simp [pokeStr]
  | succ i => simp [pokeStr]

/-- A terminator alone on a small number clears it. -/
theorem pokeInt_nul {n : ℤ} (h0 : 0 ≤ n) (h : n < 256) : pokeInt n [0] = (0, []) := by
  obtain ⟨m, rfl⟩ := Int.eq_ofNat_of_zero_le h0
  have hm : m < 256 := by exact_mod_cast h
  have hu : ((m : ℤ) % 2 ^ 32).toNat = m := by omega
  have h8 : m / 2 ^ 8 = 0 := by omega
  have h16 : m / 2 ^ 16 = 0 := by omega
  have h24 : m / 2 ^ 24 = 0 := by omega
  simp only [pokeInt, intBytes, hu, h8, h16, h24]
  rfl

/-- The string that starts with the first of the given bytes. It must end among them. -/
def cString (bs : List Byte) : Except Stop (List Byte) :=
  if 0 ∈ bs then .ok (bs.takeWhile (· ≠ 0)) else .error .fault

theorem cString_append {t : List Byte} (h : 0 ∉ t) (rest : List Byte) :
    cString (t ++ 0 :: rest) = .ok t := by
  have htake : (t ++ 0 :: rest).takeWhile (· ≠ 0) = t := by
    rw [List.takeWhile_append_of_pos fun c hc => by simpa using fun h0 : c = 0 => h (h0 ▸ hc)]
    simp
  rw [cString, if_pos (by simp), htake]

theorem cString_eq_ok {bs t : List Byte} :
    cString bs = .ok t ↔ ∃ rest, bs = t ++ 0 :: rest ∧ 0 ∉ t := by
  constructor
  · intro h
    unfold cString at h
    split_ifs at h with hmem
    obtain ⟨t', rest, rfl, ht'⟩ := List.eq_append_cons_of_mem hmem
    have ht := cString_append ht' rest
    rw [cString, if_pos hmem] at ht
    cases ht.symm.trans h
    exact ⟨rest, rfl, ht'⟩
  · rintro ⟨rest, rfl, ht⟩
    exact cString_append ht rest

theorem exists_cString {bs : List Byte} : (∃ t, cString bs = .ok t) ↔ 0 ∈ bs := by
  unfold cString
  split_ifs with h <;> simp [h]

/-- A string in a field of characters leaves a place for its terminator. -/
theorem length_lt_of_cString {n : ℕ} {s : Vector Byte n} {t : List Byte}
    (h : cString s.toList = .ok t) : t.length < n := by
  obtain ⟨rest, hs, -⟩ := cString_eq_ok.1 h
  have hlen := congrArg List.length hs
  rw [Vector.length_toList, List.length_append, List.length_cons] at hlen
  omega

/-- A string is copied with its terminator. -/
theorem pokeStr_string {n : ℕ} (s : Vector Byte n) {t : List Byte} (h : t.length < n) :
    (pokeStr s (t ++ [0])).1.toList = t ++ 0 :: s.toList.drop (t ++ [0]).length := by
  have hlen : (t ++ [0]).length ≤ n := by
    rw [List.length_append, List.length_singleton]
    exact h
  rw [pokeStr_toList s hlen, List.append_assoc, List.singleton_append]

/-- A string that has been copied into a field can be read back. -/
theorem cString_pokeStr {n : ℕ} (s : Vector Byte n) {t : List Byte} (h : t.length < n)
    (h0 : 0 ∉ t) : cString (pokeStr s (t ++ [0])).1.toList = .ok t := by
  rw [pokeStr_string s h]
  exact cString_append h0 _

end CMemory

end PconTng
