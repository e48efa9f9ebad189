import Mathlib.Data.List.TakeWhile
import PconTng.Scon.Fields

/-!
# The round trip of a query string

A client writes a field as its name, `=` and an encoding of its value, and joins the fields with
`&`. Whatever way of encoding it chooses for each byte (`Encodes`), `cgigetval` gives back the value
of the first field with the given name (`cgigetval_query`).
-/

namespace PconTng.Scon

/-- The character is the hexadecimal digit `n`, in either case. -/
def HexDigit (c : Byte) (n : ℕ) : Prop :=
  (str "0123456789ABCDEF")[n]? = some c ∨ (str "0123456789abcdef")[n]? = some c

/-- The value is encoded: each byte as `%` and two hexadecimal digits, a space as `+`, or a byte
that is none of `%`, `+` and `&` as itself. -/
inductive Encodes : List Byte → List Byte → Prop
  | nil : Encodes [] []
  | hex {b hi lo : Byte} {v e : List Byte} (hhi : HexDigit hi (b.toNat / 16))
      (hlo : HexDigit lo (b.toNat % 16)) (h : Encodes v e) :
      Encodes (b :: v) (percent :: hi :: lo :: e)
  | space {v e : List Byte} (h : Encodes v e) : Encodes (32 :: v) (plus :: e)
  | self {b : Byte} {v e : List Byte} (hb : b ∉ [percent, plus, ampersand]) (h : Encodes v e) :
      Encodes (b :: v) (b :: e)

/-- A field with its value, as the client encodes it. -/
structure Field where
  name : List Byte
  value : List Byte
  code : List Byte
  noEquals : equals ∉ name
  noAmpersand : ampersand ∉ name
  noNul : 0 ∉ value
  encodes : Encodes value code

/-- The text of a field. -/
def Field.text (f : Field) : List Byte := f.name ++ equals :: f.code

/-- The query string with the given fields. -/
def query (fs : List Field) : List Byte := [ampersand].intercalate (fs.map Field.text)

/-! ## Decoding -/

theorem HexDigit.spec {c : Byte} {n : ℕ} (h : HexDigit c n) : xctod c = n ∧ c ≠ ampersand := by
  have hupper : ∀ n : Fin 16, xctod (str "0123456789ABCDEF")[n] = n ∧
      (str "0123456789ABCDEF")[n] ≠ ampersand := by decide
  have hlower : ∀ n : Fin 16, xctod (str "0123456789abcdef")[n] = n ∧
      (str "0123456789abcdef")[n] ≠ ampersand := by decide
  rcases h with h | h
  · obtain ⟨hn, rfl⟩ := List.getElem?_eq_some_iff.1 h
    exact hupper ⟨n, hn⟩
  · obtain ⟨hn, rfl⟩ := List.getElem?_eq_some_iff.1 h
    exact hlower ⟨n, hn⟩

/-- Two digits give back the byte. -/
theorem ofNat_hexDigits {b hi lo : Byte} (hhi : HexDigit hi (b.toNat / 16))
    (hlo : HexDigit lo (b.toNat % 16)) : UInt8.ofNat (16 * xctod hi + xctod lo) = b := by
  rw [hhi.spec.1, hlo.spec.1, Nat.div_add_mod, UInt8.ofNat_toNat]

theorem Encodes.ampersand_notMem {v e : List Byte} (h : Encodes v e) : ampersand ∉ e := by
  induction h with
  | nil => exact List.not_mem_nil
  | hex hhi hlo _ ih =>
    simp only [List.mem_cons, not_or]
    exact ⟨by decide, hhi.spec.2.symm, hlo.spec.2.symm, ih⟩
  | space _ ih =>
    rw [List.mem_cons, not_or]
    exact ⟨by decide, ih⟩
  | self hb _ ih =>
    rw [List.mem_cons, not_or]
    refine ⟨?_, ih⟩
    rintro rfl
    exact hb (by decide)

/-- The loop of `unescstring` decodes what is encoded at index `i`. -/
theorem Encodes.unescLoop {v e : List Byte} (h : Encodes v e) (src : ℕ → Byte) {srclen k i : ℕ}
    (hsrc : ∀ (j : ℕ) (hj : j < e.length), src (i + j) = e[j]) (hlen : i + e.length = srclen)
    (hk : e.length ≤ k) : unescLoop src srclen k i = v := by
  induction h generalizing k i with
  | nil =>
    have hend : ¬ i < srclen := by
      rw [← hlen]
      exact Nat.lt_irrefl i
    cases k with
    | zero => rfl
    | succ k => rw [Scon.unescLoop, if_neg hend]
  | @hex b hi lo v e hhi hlo _ ih =>
    simp only [List.length_cons] at hsrc hlen hk
    obtain ⟨k, rfl⟩ := Nat.exists_eq_add_one_of_ne_zero (n := k) (by omega)
    have h0 : src i = percent := hsrc 0 (by omega)
    have h1 : src (i + 1) = hi := hsrc 1 (by omega)
    have h2 : src (i + 2) = lo := hsrc 2 (by omega)
    have hne : percent ≠ plus := by decide
    rw [Scon.unescLoop, if_pos (by omega), h0, if_neg hne, if_pos rfl, h1, h2,
      ofNat_hexDigits hhi hlo]
    refine congrArg _ (ih (fun j hj => ?_) (by omega) (by omega))
    rw [Nat.add_assoc, Nat.add_comm 3 j]
    exact hsrc (j + 3) (by omega)
  | @space v e _ ih =>
    simp only [List.length_cons] at hsrc hlen hk
    obtain ⟨k, rfl⟩ := Nat.exists_eq_add_one_of_ne_zero (n := k) (by omega)
    have h0 : src i = plus := hsrc 0 (by omega)
    rw [Scon.unescLoop, if_pos (by omega), h0, if_pos rfl]
    refine congrArg _ (ih (fun j hj => ?_) (by omega) (by omega))
    rw [Nat.add_assoc, Nat.add_comm 1 j]
    exact hsrc (j + 1) (by omega)
  | @self b v e hb _ ih =>
    simp only [List.length_cons] at hsrc hlen hk
    obtain ⟨k, rfl⟩ := Nat.exists_eq_add_one_of_ne_zero (n := k) (by omega)
    have h0 : src i = b := hsrc 0 (by omega)
    simp only [List.mem_cons, not_or] at hb
    rw [Scon.unescLoop, if_pos (by omega), h0, if_neg hb.2.1, if_neg hb.1]
    refine congrArg _ (ih (fun j hj => ?_) (by omega) (by omega))
    rw [Nat.add_assoc, Nat.add_comm 1 j]
    exact hsrc (j + 1) (by omega)

theorem Encodes.unescstring {v e : List Byte} (h : Encodes v e) (hv : 0 ∉ v) (behind : Byte)
    (rest : Option (List Byte)) :
    unescstring behind (withRest e rest) e.length = v := by
  have hsrc : ∀ (j : ℕ) (hj : j < e.length),
      (withRest e rest ++ [0, behind]).getD (0 + j) 0 = e[j] := by
    intro j hj
    cases rest <;> simp [withRest, List.getElem?_append, hj]
  have hloop := h.unescLoop (fun i => (withRest e rest ++ [0, behind]).getD i 0) hsrc
    (Nat.zero_add _) le_rfl
  rw [Scon.unescstring, hloop, List.takeWhile_eq_self_iff]
  intro c hc
  simpa using fun h0 : c = 0 => hv (h0 ▸ hc)

/-! ## The fields -/

theorem Field.ampersand_notMem (f : Field) : ampersand ∉ f.text := by
  rw [Field.text, List.mem_append, List.mem_cons]
  rintro (h | h | h)
  · exact f.noAmpersand h
  · exact absurd h (by decide)
  · exact f.encodes.ampersand_notMem h

theorem Field.equals_mem (f : Field) : equals ∈ f.text := by
  rw [Field.text]
  simp

/-- The name of a field is what is in front of its first `=`. -/
theorem Field.named_iff (f : Field) (fieldname : List Byte) :
    Named fieldname f.text ↔ f.name = fieldname := by
  constructor
  · rintro ⟨hn, v, hv⟩
    have hlen : some f.name.length = some fieldname.length := by
      rw [← strchr_append f.noEquals f.code, ← strchr_append hn v]
      exact congrArg (strchr · equals) hv
    exact (List.append_inj hv (Option.some_inj.1 hlen)).1
  · rintro rfl
    exact ⟨f.noEquals, f.code, rfl⟩

theorem query_cons (f : Field) (fs : List Field) :
    query (f :: fs) = withRest f.text (if fs = [] then none else some (query fs)) := by
  cases fs with
  | nil => simp [query, withRest]
  | cons g fs => simp [query, withRest, List.intercalate_cons_cons]

theorem Field.text_ne_nil (f : Field) : f.text ≠ [] := fun h => by
  have he := f.equals_mem
  rw [h] at he
  cases he

/-- The loop finds the first field with the given name. -/
theorem cgiLoop_query (behind : Byte) (fieldname : List Byte) (fs : List Field) :
    ∃ k, cgiLoop behind fieldname k (query fs) =
      some ((fs.find? fun f => f.name = fieldname).map Field.value) := by
  induction fs with
  | nil => exact ⟨1, rfl⟩
  | cons f fs ih =>
    have hne : query (f :: fs) ≠ [] := by
      rw [query_cons]
      split
      · exact f.text_ne_nil
      · exact withRest_some_ne_nil _ _
    by_cases hname : f.name = fieldname
    · refine ⟨1, ?_⟩
      have hnamed := cgiTurn_named behind f.ampersand_notMem f.noEquals
        (if fs = [] then none else some (query fs))
      rw [f.encodes.unescstring f.noNul, hname] at hnamed
      rw [List.find?_cons_of_pos]
      · apply cgiLoop_of_found behind hne
        rw [query_cons, Field.text, hname]
        exact hnamed
      · exact decide_eq_true hname
    · obtain ⟨k, hk⟩ := ih
      refine ⟨k + 1, ?_⟩
      have hother := cgiTurn_other behind f.ampersand_notMem f.equals_mem
        (fun h => hname ((f.named_iff fieldname).1 h)) (if fs = [] then none else some (query fs))
      have hrest : (if fs = [] then none else some (query fs)).getD [] = query fs := by
        split
        · next h => rw [h]; rfl
        · rfl
      rw [hrest, ← query_cons] at hother
      rw [cgiLoop_of_next behind hne hother, List.find?_cons_of_neg]
      · exact hk
      · simpa using hname

/-- **The round trip of a query string.** -/
theorem cgigetval_query (behind : Byte) (fs : List Field) (fieldname : List Byte) :
    cgigetval behind (some (query fs)) fieldname =
      .ok ((fs.find? fun f => f.name = fieldname).map Field.value) := by
  obtain ⟨k, hk⟩ := cgiLoop_query behind fieldname fs
  exact cgigetval_of_loop behind hk

end PconTng.Scon
