import Mathlib.Data.List.GetD
import PconTng.Scon.Fields

/-!
# What decoding a field reads

`unescstring` looks two characters ahead at each `%`, also where the field has no more. Behind a `%`
in the last place but one it reads the character that ends the field, `&` or the terminator, which
both count as the digit 0. Behind a `%` in the last place it reads the first character of what
follows. So the value of a field depends on nothing else exactly when the decoder does not come to a
`%` in the last place (`isolated_iff`).
-/

namespace PconTng.Scon

/-! ## The field on its own -/

/-- The byte of an escape with the two digits in front of the list. -/
def escaped (cs : List Byte) : Byte :=
  UInt8.ofNat (16 * xctod (cs.getD 0 0) + xctod (cs.getD 1 0))

/-- The code of a value, decoded with the two characters that stand behind it. -/
def decode (c₁ c₂ : Byte) : List Byte → List Byte
  | [] => []
  | c :: cs =>
    if c = plus then 32 :: decode c₁ c₂ cs
    else if c = percent then escaped (cs ++ [c₁, c₂]) :: decode c₁ c₂ (cs.drop 2)
    else c :: decode c₁ c₂ cs
  termination_by cs => cs.length
  decreasing_by
    · exact Nat.lt_succ_self _
    · exact (List.drop_sublist 2 cs).length_le.trans_lt (Nat.lt_succ_self _)
    · exact Nat.lt_succ_self _

/-- The decoder comes to a `%` in the last place, and no terminator has been decoded before it. -/
def Dangling : List Byte → Prop
  | [] => False
  | c :: cs =>
    if c = percent then cs = [] ∨ escaped cs ≠ 0 ∧ Dangling (cs.drop 2)
    else Dangling cs
  termination_by cs => cs.length
  decreasing_by
    · exact (List.drop_sublist 2 cs).length_le.trans_lt (Nat.lt_succ_self _)
    · exact Nat.lt_succ_self _


/-! ## Decoding reads two characters ahead -/

variable {c₁ c₂ behind : Byte} {cs : List Byte}

theorem unescLoop_end (src : ℕ → Byte) {srclen k i : ℕ} (h : srclen ≤ i) :
    unescLoop src srclen k i = [] := by
  cases k with
  | zero => rfl
  | succ k => rw [unescLoop, if_neg h.not_gt]

/-- The loop of `unescstring` decodes the code at index `i`. -/
theorem unescLoop_eq_decode (src : ℕ → Byte) {srclen k i : ℕ}
    (hsrc : ∀ j < cs.length + 2, src (i + j) = (cs ++ [c₁, c₂]).getD j 0)
    (hlen : i + cs.length = srclen) (hk : cs.length ≤ k) :
    unescLoop src srclen k i = decode c₁ c₂ cs := by
  induction cs using decode.induct generalizing k i with
  | case1 =>
    rw [decode]
    exact unescLoop_end src hlen.ge
  | case2 cs ih =>
    simp only [List.length_cons] at hsrc hlen hk
    obtain ⟨k, rfl⟩ := Nat.exists_eq_add_one_of_ne_zero (n := k) (by omega)
    have h0 : src i = plus := hsrc 0 (by omega)
    rw [unescLoop, if_pos (by omega), h0, if_pos rfl, decode, if_pos rfl]
    refine congrArg _ (ih (fun j hj => ?_) (by omega) (by omega))
    rw [Nat.add_assoc, Nat.add_comm 1 j]
    exact hsrc (j + 1) (by omega)
  | case3 cs hplus ih =>
    simp only [List.length_cons] at hsrc hlen hk
    obtain ⟨k, rfl⟩ := Nat.exists_eq_add_one_of_ne_zero (n := k) (by omega)
    have h0 : src i = percent := hsrc 0 (by omega)
    have h1 : src (i + 1) = (cs ++ [c₁, c₂]).getD 0 0 := hsrc 1 (by omega)
    have h2 : src (i + 2) = (cs ++ [c₁, c₂]).getD 1 0 := hsrc 2 (by omega)
    rw [unescLoop, if_pos (by omega), h0, if_neg hplus, if_pos rfl, h1, h2, decode, if_neg hplus,
      if_pos rfl]
    refine congrArg _ ?_
    obtain hshort | hlong := lt_or_ge cs.length 2
    · -- the escape ends behind the code
      rw [List.drop_eq_nil_of_le hshort.le, decode]
      exact unescLoop_end src (by omega)
    · have hdrop := List.length_drop (i := 2) (l := cs)
      refine ih (fun j hj => ?_) (by omega) (by omega)
      rw [← List.drop_append_of_le_length hlong, List.getD_eq_getElem?_getD, List.getElem?_drop,
        ← List.getD_eq_getElem?_getD, Nat.add_assoc, show 3 + j = 2 + j + 1 by omega]
      exact hsrc (2 + j + 1) (by omega)
  | case4 c cs hplus hpercent ih =>
    simp only [List.length_cons] at hsrc hlen hk
    obtain ⟨k, rfl⟩ := Nat.exists_eq_add_one_of_ne_zero (n := k) (by omega)
    have h0 : src i = c := hsrc 0 (by omega)
    rw [unescLoop, if_pos (by omega), h0, if_neg hplus, if_neg hpercent, decode, if_neg hplus,
      if_neg hpercent]
    refine congrArg _ (ih (fun j hj => ?_) (by omega) (by omega))
    rw [Nat.add_assoc, Nat.add_comm 1 j]
    exact hsrc (j + 1) (by omega)

/-- An escape with a digit in the field takes the character that ends the field as 0. -/
theorem escaped_append (h : cs ≠ []) (h₁ : xctod c₁ = 0) :
    escaped (cs ++ [c₁, c₂]) = escaped cs := by
  obtain ⟨hi, cs, rfl⟩ := List.exists_cons_of_ne_nil h
  cases cs with
  | nil =>
    have h0 : xctod 0 = 0 := by decide
    simp [escaped, h₁, h0]
  | cons lo cs => rfl

/-- The characters in front of the first terminator. -/
def text (bs : List Byte) : List Byte := bs.takeWhile (· ≠ 0)

theorem text_cons {b : Byte} (h : b ≠ 0) (bs : List Byte) : text (b :: bs) = b :: text bs := by
  simp [text, h]

theorem text_zero (bs : List Byte) : text (0 :: bs) = [] := by
  simp [text]

/-- Behind a `%` in the last place the value goes on with what follows the field. -/
theorem text_decode_of_dangling (h0 : 0 ∉ cs) (h : Dangling cs) :
    ∃ d, ∀ c₁ c₂, xctod c₁ = 0 →
      text (decode c₁ c₂ cs) = d ++ text [UInt8.ofNat (xctod c₂)] := by
  induction cs using Dangling.induct with
  | case1 =>
    rw [Dangling] at h
    exact h.elim
  | case2 cs ih =>
    have hne : percent ≠ plus := by decide
    rw [Dangling, if_pos rfl] at h
    by_cases hnil : cs = []
    · subst hnil
      refine ⟨[], fun c₁ c₂ h₁ => ?_⟩
      rw [decode, if_neg hne, if_pos rfl, List.drop_nil, decode, List.nil_append, List.nil_append]
      have hesc : escaped [c₁, c₂] = UInt8.ofNat (16 * xctod c₁ + xctod c₂) := rfl
      rw [hesc, h₁, Nat.mul_zero, Nat.zero_add]
    · obtain ⟨hesc, hdrop⟩ := h.resolve_left hnil
      obtain ⟨d, hd⟩ := ih (fun hmem => h0 (.tail _ (List.mem_of_mem_drop hmem))) hdrop
      refine ⟨escaped cs :: d, fun c₁ c₂ h₁ => ?_⟩
      rw [decode, if_neg hne, if_pos rfl, escaped_append hnil h₁, text_cons hesc, hd c₁ c₂ h₁]
      rfl
  | case3 c cs hpercent ih =>
    rw [Dangling, if_neg hpercent] at h
    rw [List.mem_cons, not_or] at h0
    obtain ⟨d, hd⟩ := ih h0.2 h
    by_cases hplus : c = plus
    · refine ⟨32 :: d, fun c₁ c₂ h₁ => ?_⟩
      rw [decode, if_pos hplus, text_cons (by decide), hd c₁ c₂ h₁]
      rfl
    · refine ⟨c :: d, fun c₁ c₂ h₁ => ?_⟩
      rw [decode, if_neg hplus, if_neg hpercent, text_cons (Ne.symm h0.1), hd c₁ c₂ h₁]
      rfl

/-- Otherwise the value is one of the field alone. -/
theorem text_decode_of_not_dangling (h0 : 0 ∉ cs) (h : ¬ Dangling cs) :
    ∃ v, ∀ c₁ c₂, xctod c₁ = 0 → text (decode c₁ c₂ cs) = v := by
  induction cs using Dangling.induct with
  | case1 =>
    refine ⟨[], fun c₁ c₂ _ => ?_⟩
    rw [decode]
    rfl
  | case2 cs ih =>
    have hne : percent ≠ plus := by decide
    rw [Dangling, if_pos rfl, not_or, not_and] at h
    by_cases hesc : escaped cs = 0
    · refine ⟨[], fun c₁ c₂ h₁ => ?_⟩
      rw [decode, if_neg hne, if_pos rfl, escaped_append h.1 h₁, hesc, text_zero]
    · obtain ⟨v, hv⟩ := ih (fun hmem => h0 (.tail _ (List.mem_of_mem_drop hmem))) (h.2 hesc)
      refine ⟨escaped cs :: v, fun c₁ c₂ h₁ => ?_⟩
      rw [decode, if_neg hne, if_pos rfl, escaped_append h.1 h₁, text_cons hesc, hv c₁ c₂ h₁]
  | case3 c cs hpercent ih =>
    rw [Dangling, if_neg hpercent] at h
    rw [List.mem_cons, not_or] at h0
    obtain ⟨v, hv⟩ := ih h0.2 h
    by_cases hplus : c = plus
    · refine ⟨32 :: v, fun c₁ c₂ h₁ => ?_⟩
      rw [decode, if_pos hplus, text_cons (by decide), hv c₁ c₂ h₁]
    · refine ⟨c :: v, fun c₁ c₂ h₁ => ?_⟩
      rw [decode, if_neg hplus, if_neg hpercent, text_cons (Ne.symm h0.1), hv c₁ c₂ h₁]

/-! ## The field in a query string -/

/-- A field with a name, as it stands in a query string. -/
structure Sent where
  name : List Byte
  code : List Byte
  noEquals : equals ∉ name
  noAmpersand : ampersand ∉ name ++ equals :: code
  noNul : 0 ∉ name ++ equals :: code

def Sent.bytes (f : Sent) : List Byte := f.name ++ equals :: f.code

theorem Sent.code_noNul (f : Sent) : 0 ∉ f.code := by
  intro h
  apply f.noNul
  simp [h]

/-- Every field of the query string has a name. -/
structure Formed (p : List Byte) : Prop where
  equals : ∀ g ∈ fields p, equals ∈ g
  noNul : 0 ∉ p

/-- The field is the first one of its name. -/
def First (f : Sent) (p : List Byte) : Prop :=
  ∃ pre post, fields p = pre ++ f.bytes :: post ∧ ∀ g ∈ pre, ¬ Named f.name g

/-- The value of the field is the same in any two query strings in which it is the first one of its
name, whatever stands in memory behind them. -/
def Isolated (f : Sent) : Prop :=
  ∀ p₁ p₂ behind₁ behind₂, Formed p₁ → Formed p₂ → First f p₁ → First f p₂ →
    cgigetval behind₁ (some p₁) f.name = cgigetval behind₂ (some p₂) f.name

/-- The character that ends a field. -/
def ender : Option (List Byte) → Byte
  | none => 0
  | some _ => ampersand

/-- The one behind it. -/
def follower (behind : Byte) : Option (List Byte) → Byte
  | none => behind
  | some q => q.headD 0

theorem xctod_ender (rest : Option (List Byte)) : xctod (ender rest) = 0 := by
  cases rest with
  | none => exact (by decide : xctod 0 = 0)
  | some q => exact (by decide : xctod ampersand = 0)

/-- Behind the field stand these two. -/
theorem exists_withRest_append (behind : Byte) (v : List Byte) (rest : Option (List Byte)) :
    ∃ tail, withRest v rest ++ [0, behind] = v ++ [ender rest, follower behind rest] ++ tail := by
  cases rest with
  | none => exact ⟨[], by simp [withRest, ender, follower]⟩
  | some q =>
    cases q with
    | nil => exact ⟨[behind], by simp [withRest, ender, follower]⟩
    | cons c q => exact ⟨q ++ [0, behind], by simp [withRest, ender, follower]⟩

theorem unescstring_eq_decode (behind : Byte) (v : List Byte) (rest : Option (List Byte)) :
    unescstring behind (withRest v rest) v.length =
      text (decode (ender rest) (follower behind rest) v) := by
  obtain ⟨tail, htail⟩ := exists_withRest_append behind v rest
  unfold unescstring text
  rw [unescLoop_eq_decode _ (fun j hj => ?_) (Nat.zero_add _) le_rfl]
  rw [htail, Nat.zero_add]
  apply List.getD_append
  rwa [List.length_append]

variable {f : Sent}

/-- A field at the start of a query string. -/
theorem cgiLoop_head (f : Sent) (behind : Byte) (rest : Option (List Byte)) :
    cgiLoop behind f.name 1 (withRest f.bytes rest) =
      some (some (text (decode (ender rest) (follower behind rest) f.code))) := by
  have hne : withRest f.bytes rest ≠ [] := by
    cases rest <;> simp [withRest, Sent.bytes]
  apply cgiLoop_of_found behind hne
  rw [Sent.bytes, cgiTurn_named behind f.noAmpersand f.noEquals, unescstring_eq_decode]

/-- The fields in front of it are passed over. -/
theorem cgiLoop_first (behind : Byte) {p : List Byte} (hp : Formed p) (h : First f p) :
    ∃ k c₁ c₂, xctod c₁ = 0 ∧
      cgiLoop behind f.name k p = some (some (text (decode c₁ c₂ f.code))) := by
  obtain ⟨pre, post, hfields, hpre⟩ := h
  induction pre generalizing p with
  | nil =>
    obtain ⟨g, rest, hg, rfl⟩ := exists_withRest p
    rw [fields_withRest hg] at hfields
    obtain ⟨rfl, -⟩ := List.cons.inj hfields
    exact ⟨1, _, _, xctod_ender rest, cgiLoop_head f behind rest⟩
  | cons g pre ih =>
    rw [List.forall_mem_cons] at hpre
    obtain ⟨g', rest, hg, rfl⟩ := exists_withRest p
    have hall := hp.equals
    rw [fields_withRest hg] at hfields hall
    obtain ⟨rfl, hrest⟩ := List.cons.inj hfields
    cases rest with
    | none => simp at hrest
    | some q =>
      rw [List.forall_mem_cons] at hall
      have hq : Formed q := ⟨hall.2, fun hmem => hp.noNul (by simp [withRest, hmem])⟩
      obtain ⟨k, c₁, c₂, h₁, hk⟩ := ih hq hrest hpre.2
      refine ⟨k + 1, c₁, c₂, h₁, ?_⟩
      rw [cgiLoop_of_next behind (withRest_some_ne_nil _ _)
        (cgiTurn_other behind hg hall.1 hpre.1 _)]
      exact hk

/-! ## Two query strings -/

/-- A field whose decoding does not leave it. -/
theorem isolated_of_not_dangling (h : ¬ Dangling f.code) : Isolated f := by
  intro p₁ p₂ behind₁ behind₂ hp₁ hp₂ h₁ h₂
  obtain ⟨v, hv⟩ := text_decode_of_not_dangling f.code_noNul h
  obtain ⟨k₁, c₁, d₁, hc₁, hk₁⟩ := cgiLoop_first behind₁ hp₁ h₁
  obtain ⟨k₂, c₂, d₂, hc₂, hk₂⟩ := cgiLoop_first behind₂ hp₂ h₂
  rw [cgigetval_of_loop behind₁ hk₁, cgigetval_of_loop behind₂ hk₂, hv _ _ hc₁, hv _ _ hc₂]

theorem Sent.equals_mem (f : Sent) : equals ∈ f.bytes := by
  simp [Sent.bytes]

/-- A query string of two fields. -/
theorem formed_pair (f : Sent) {g : List Byte} (hg : ampersand ∉ g) (he : equals ∈ g)
    (h0 : 0 ∉ g) :
    Formed (withRest f.bytes (some g)) ∧ First f (withRest f.bytes (some g)) := by
  have hfields : fields (withRest f.bytes (some g)) = [f.bytes, g] := by
    have hlast : fields g = [g] := fields_withRest hg none
    rw [fields_withRest (f := f.bytes) f.noAmpersand, Option.map_some, hlast]
    rfl
  have hnul : 0 ∉ withRest f.bytes (some g) := by
    rw [withRest, List.mem_append, List.mem_cons]
    rintro (h | h | h)
    · exact f.noNul h
    · exact absurd h (by decide)
    · exact h0 h
  refine ⟨⟨?_, hnul⟩, [], [g], hfields, fun g hg => absurd hg List.not_mem_nil⟩
  rw [hfields]
  exact List.forall_mem_cons.2 ⟨f.equals_mem, List.forall_mem_singleton.2 he⟩

/-- Behind a dangling `%` the first character of the next field counts as a digit. -/
theorem not_isolated_of_dangling (h : Dangling f.code) : ¬ Isolated f := by
  intro hall
  obtain ⟨d, hd⟩ := text_decode_of_dangling f.code_noNul h
  obtain ⟨hp₁, h₁⟩ := formed_pair f (g := str "1=") (by decide) (by decide) (by decide)
  obtain ⟨hp₂, h₂⟩ := formed_pair f (g := str "2=") (by decide) (by decide) (by decide)
  have hsame := hall _ _ 0 0 hp₁ hp₂ h₁ h₂
  rw [cgigetval_of_loop 0 (cgiLoop_head f 0 _), cgigetval_of_loop 0 (cgiLoop_head f 0 _),
    hd _ _ (xctod_ender _), hd _ _ (xctod_ender _)] at hsame
  have htail := List.append_cancel_left (Option.some.inj (Except.ok.inj hsame))
  exact absurd htail (by decide)

/-- **A field is read on its own exactly when no `%` is left dangling.** -/
theorem isolated_iff (f : Sent) : Isolated f ↔ ¬ Dangling f.code :=
  ⟨fun hall h => not_isolated_of_dangling h hall, isolated_of_not_dangling⟩

/-- `a=%` -/
def percentSign : Sent := ⟨str "a", str "%", by decide, by decide, by decide⟩

/-- A `%` alone is not read on its own. -/
theorem not_isolated : ¬ ∀ f : Sent, Isolated f := by
  intro hall
  obtain ⟨hp₁, h₁⟩ := formed_pair percentSign (g := str "1=") (by decide) (by decide) (by decide)
  obtain ⟨hp₂, h₂⟩ := formed_pair percentSign (g := str "2=") (by decide) (by decide) (by decide)
  exact absurd (hall percentSign _ _ 0 0 hp₁ hp₂ h₁ h₂) (by decide)

end PconTng.Scon
