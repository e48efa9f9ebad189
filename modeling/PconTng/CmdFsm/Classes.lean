import PconTng.CmdFsm.Session

/-!
# The classes of tokens

`token_type` tests a token for a blank, a quote and an integer, and then compares it with the
keywords of its length, putting it into lower case on the way. Every token is of exactly one kind
(`kindOf_eq_iff`), the kind is the row that `cmd_fsm` selects, and it does not depend on the case of
the letters (`token_classes`).
-/

namespace PconTng

/-! ## Kinds -/

/-- What a token can be. -/
inductive Kind
  | nothing
  | string
  | integer
  | command (i : ℕ)
  | other
  deriving DecidableEq

namespace Kind

/-- The row of the tables, if any. -/
def row : Kind → Option ℤ
  | nothing => none
  | string => some 36
  | integer => some 35
  | command i => some i
  | other => some 37

/-- What `token_type` returns. -/
def type : Kind → ℤ
  | nothing => ttNull
  | string => ttStr
  | integer => ttInt
  | command i => i
  | other => ttUnrec

/-- An optional minus sign and one or more digits. -/
def IsInteger (c : List Byte) : Prop :=
  ∃ ds, ds ≠ [] ∧ (∀ d ∈ ds, isDigit d) ∧ (c = ds ∨ c = 45 :: ds)

/-- The keyword `i`, in upper or lower case. -/
def IsCommand (i : ℕ) (c : List Byte) : Prop :=
  (i < 35 ∨ 38 ≤ i) ∧ ∃ k, keyword[i]? = some k ∧ c.map toLower = k.map toLower

/-- The token is of the kind. -/
def Is (c : List Byte) : Kind → Prop
  | nothing => c = [] ∨ c.head? = some 32
  | string => c.head? = some quote
  | integer => IsInteger c
  | command i => IsCommand i c
  | other => c ≠ [] ∧ c.head? ≠ some 32 ∧ c.head? ≠ some quote ∧ ¬ IsInteger c ∧
      ∀ i, ¬ IsCommand i c

end Kind

/-- The keyword that a token is. -/
def findKeyword (c : List Byte) : Option (ℕ × List Byte) :=
  keywords.find? fun x => c.map toLower = x.2

/-- The kind of a token. -/
def kindOf (c : List Byte) : Kind :=
  if c = [] ∨ c.head? = some 32 then .nothing
  else if c.head? = some quote then .string
  else if isValidInt c then .integer
  else
    match findKeyword c with
    | some x => .command x.1
    | none => .other

/-! ## Lower case -/

theorem toNat_toLower (b : Byte) :
    (toLower b).toNat = if 65 ≤ b.toNat ∧ b.toNat ≤ 90 then b.toNat + 32 else b.toNat := by
  unfold toLower
  simp only [UInt8.le_iff_toNat_le]
  have h65 : (65 : Byte).toNat = 65 := rfl
  have h90 : (90 : Byte).toNat = 90 := rfl
  rw [h65, h90]
  split_ifs with h
  · have h32 : (32 : Byte).toNat = 32 := rfl
    rw [UInt8.toNat_add, h32]
    omega
  · rfl

theorem toLower_toLower (b : Byte) : toLower (toLower b) = toLower b := by
  apply UInt8.toNat_inj.1
  rw [toNat_toLower (toLower b), toNat_toLower b]
  split_ifs <;> omega

/-- A character that is no letter is the same in lower case, and no other is. -/
theorem toLower_eq_iff {b c : Byte} (hc : c.toNat < 65) : toLower b = c ↔ b = c := by
  rw [← UInt8.toNat_inj, ← UInt8.toNat_inj, toNat_toLower]
  split_ifs <;> omega

theorem isDigit_toLower (b : Byte) : isDigit (toLower b) = isDigit b := by
  unfold isDigit
  simp only [UInt8.le_iff_toNat_le, toNat_toLower]
  have h48 : (48 : Byte).toNat = 48 := rfl
  have h57 : (57 : Byte).toNat = 57 := rfl
  rw [h48, h57]
  congr 1
  apply propext
  split_ifs <;> omega

theorem map_toLower_toLower (c : List Byte) : (c.map toLower).map toLower = c.map toLower := by
  rw [List.map_map]
  exact List.map_congr_left fun b _ => toLower_toLower b

theorem isValidInt_toLower (c : List Byte) : isValidInt (c.map toLower) = isValidInt c := by
  have h45 : ∀ b : Byte, toLower b = 45 ↔ b = 45 := fun b => toLower_eq_iff (by decide)
  cases c with
  | nil => rfl
  | cons b c =>
    cases c with
    | nil => exact isDigit_toLower b
    | cons b' c =>
      simp only [List.map_cons, isValidInt, isDigit_toLower, h45, List.all_cons, List.all_map,
        Function.comp_def]

/-! ## Integers -/

theorem isValidInt_iff (c : List Byte) : isValidInt c ↔ Kind.IsInteger c := by
  constructor
  · intro h
    cases c with
    | nil => cases h
    | cons b c =>
      cases c with
      | nil => exact ⟨[b], List.cons_ne_nil _ _, List.forall_mem_singleton.2 h, .inl rfl⟩
      | cons b' c =>
        simp only [isValidInt, Bool.and_eq_true, Bool.or_eq_true, decide_eq_true_eq,
          List.all_eq_true] at h
        obtain ⟨rfl | hb, hall⟩ := h
        · exact ⟨b' :: c, List.cons_ne_nil _ _, hall, .inr rfl⟩
        · exact ⟨b :: b' :: c, List.cons_ne_nil _ _, List.forall_mem_cons.2 ⟨hb, hall⟩, .inl rfl⟩
  · rintro ⟨ds, hne, hall, rfl | rfl⟩
    · obtain ⟨d, ds, rfl⟩ := List.exists_cons_of_ne_nil hne
      rw [List.forall_mem_cons] at hall
      cases ds with
      | nil => exact hall.1
      | cons d' ds => simpa [isValidInt, hall.1] using hall.2
    · obtain ⟨d, ds, rfl⟩ := List.exists_cons_of_ne_nil hne
      simpa [isValidInt] using hall

/-- An integer starts with a digit or a minus sign. -/
theorem head_of_isInteger {c : List Byte} (h : Kind.IsInteger c) :
    c ≠ [] ∧ c.head? ≠ some 32 ∧ c.head? ≠ some quote := by
  obtain ⟨ds, hne, hall, rfl | rfl⟩ := h
  · obtain ⟨d, ds, rfl⟩ := List.exists_cons_of_ne_nil hne
    have hd : isDigit d := hall d List.mem_cons_self
    refine ⟨List.cons_ne_nil _ _, ?_, ?_⟩ <;>
    · intro he
      cases Option.some.inj he
      exact absurd hd (by decide)
  · exact ⟨List.cons_ne_nil _ _, fun he => absurd (Option.some.inj he) (by decide),
      fun he => absurd (Option.some.inj he) (by decide)⟩

/-! ## Keywords -/

theorem matchKeyword_eq_find (bs : List Byte) (ks : List (ℕ × List Byte)) :
    (matchKeyword bs ks).2 = (ks.find? fun x => bs.map toLower = x.2).map Prod.fst := by
  induction ks generalizing bs with
  | nil => rfl
  | cons x ks ih =>
    obtain ⟨i, k⟩ := x
    rw [matchKeyword]
    by_cases hk : bs.map toLower = k
    · have hlen : bs.length = k.length := by rw [← hk, List.length_map]
      rw [if_pos hlen, List.find?_cons_of_pos (by simpa using hk)]
      simp only [if_pos hk, Option.map_some]
    · rw [List.find?_cons_of_neg (by simpa using hk)]
      split_ifs with hlen
      · simp only [if_neg hk]
        rw [ih, map_toLower_toLower]
      · exact ih bs

theorem mem_keywords {i : ℕ} {k : List Byte} :
    (i, k) ∈ keywords ↔ (i < 35 ∨ 38 ≤ i) ∧ keyword[i]? = some k := by
  have hzip : (k, i) ∈ keyword.zipIdx ↔ keyword[i]? = some k := List.mem_zipIdx_iff_getElem?
  unfold keywords
  rw [List.mem_map]
  constructor
  · rintro ⟨⟨k', i'⟩, hmem, heq⟩
    obtain ⟨rfl, rfl⟩ := Prod.mk.inj heq
    obtain ⟨hin, hi⟩ := List.mem_filter.1 hmem
    exact ⟨of_decide_eq_true hi, hzip.1 hin⟩
  · rintro ⟨hi, hk⟩
    exact ⟨(k, i), List.mem_filter.2 ⟨hzip.2 hk, decide_eq_true hi⟩, rfl⟩

/-- The keywords are in lower case, are no integers, and start with neither a blank nor a quote. -/
theorem keywords_plain : ∀ x ∈ keywords, x.2.map toLower = x.2 ∧ isValidInt x.2 = false ∧
    x.2 ≠ [] ∧ x.2.head? ≠ some 32 ∧ x.2.head? ≠ some quote := by
  decide +kernel

/-- No two of them are the same. -/
theorem keywords_inj : ∀ x ∈ keywords, ∀ y ∈ keywords, x.2 = y.2 → x = y := by
  decide +kernel

theorem findKeyword_eq_some {c : List Byte} {x : ℕ × List Byte} :
    findKeyword c = some x ↔ x ∈ keywords ∧ c.map toLower = x.2 := by
  constructor
  · intro h
    exact ⟨List.mem_of_find?_eq_some h, by simpa using List.find?_some h⟩
  · rintro ⟨hx, hc⟩
    cases hf : findKeyword c with
    | none =>
      have hnone := List.find?_eq_none.1 hf x hx
      exact absurd hc (by simpa using hnone)
    | some y =>
      have hy : c.map toLower = y.2 := by simpa using List.find?_some hf
      rw [keywords_inj x hx y (List.mem_of_find?_eq_some hf) (hc.symm.trans hy)]

theorem isCommand_iff {i : ℕ} {c : List Byte} :
    Kind.IsCommand i c ↔ ∃ k, findKeyword c = some (i, k) := by
  constructor
  · rintro ⟨hi, k, hk, hc⟩
    have hmem := mem_keywords.2 ⟨hi, hk⟩
    exact ⟨k, findKeyword_eq_some.2 ⟨hmem, hc.trans (keywords_plain _ hmem).1⟩⟩
  · rintro ⟨k, hk⟩
    obtain ⟨hmem, hc⟩ := findKeyword_eq_some.1 hk
    obtain ⟨hi, hget⟩ := mem_keywords.1 hmem
    exact ⟨hi, k, hget, hc.trans (keywords_plain _ hmem).1.symm⟩

/-- A token that is a keyword is nothing else. -/
theorem plain_of_isCommand {i : ℕ} {c : List Byte} (h : Kind.IsCommand i c) :
    c ≠ [] ∧ c.head? ≠ some 32 ∧ c.head? ≠ some quote ∧ isValidInt c = false := by
  obtain ⟨k, hk⟩ := isCommand_iff.1 h
  obtain ⟨hmem, hc⟩ := findKeyword_eq_some.1 hk
  obtain ⟨-, hint, hnil, hblank, hquote⟩ := keywords_plain _ hmem
  have hhead : (c.map toLower).head? = c.head?.map toLower := List.head?_map
  rw [← hc] at hint hnil hblank hquote
  rw [hhead] at hblank hquote
  refine ⟨fun h => hnil (List.map_eq_nil_iff.2 h), fun h => hblank ?_, fun h => hquote ?_, ?_⟩
  · rw [h]
    rfl
  · rw [h]
    rfl
  · rwa [isValidInt_toLower] at hint

/-! ## Every token is of one kind -/

theorem is_kindOf (c : List Byte) : (kindOf c).Is c := by
  unfold kindOf
  split_ifs with hnothing hquote hint
  · exact hnothing
  · exact hquote
  · exact (isValidInt_iff c).1 hint
  · rw [not_or] at hnothing
    cases hf : findKeyword c with
    | none =>
      refine ⟨hnothing.1, hnothing.2, hquote, fun h => hint ((isValidInt_iff c).2 h), ?_⟩
      intro i hi
      obtain ⟨k, hk⟩ := isCommand_iff.1 hi
      cases hf.symm.trans hk
    | some x => exact isCommand_iff.2 ⟨x.2, hf⟩

theorem kindOf_of_is {c : List Byte} {kind : Kind} (h : kind.Is c) : kindOf c = kind := by
  cases kind with
  | nothing => exact if_pos h
  | string =>
    have hhead : c.head? = some quote := h
    have hnothing : ¬ (c = [] ∨ c.head? = some 32) := by
      rw [hhead]
      rintro (rfl | he)
      · cases hhead
      · exact absurd (Option.some.inj he) (by decide)
    rw [kindOf, if_neg hnothing, if_pos hhead]
  | integer =>
    obtain ⟨hnil, hblank, hquote⟩ := head_of_isInteger h
    rw [kindOf, if_neg (not_or.2 ⟨hnil, hblank⟩), if_neg hquote,
      if_pos ((isValidInt_iff c).2 h)]
  | command i =>
    obtain ⟨hnil, hblank, hquote, hint⟩ := plain_of_isCommand h
    obtain ⟨k, hk⟩ := isCommand_iff.1 h
    rw [kindOf, if_neg (not_or.2 ⟨hnil, hblank⟩), if_neg hquote, if_neg (by simp [hint]), hk]
  | other =>
    obtain ⟨hnil, hblank, hquote, hint, hcommand⟩ := h
    have hnone : findKeyword c = none := by
      cases hf : findKeyword c with
      | none => rfl
      | some x => exact absurd (isCommand_iff.2 ⟨x.2, hf⟩) (hcommand x.1)
    rw [kindOf, if_neg (not_or.2 ⟨hnil, hblank⟩), if_neg hquote,
      if_neg fun hv => hint ((isValidInt_iff c).1 hv), hnone]

/-- The kinds are exclusive, and every token is of one. -/
theorem kindOf_eq_iff (c : List Byte) (kind : Kind) : kind.Is c ↔ kind = kindOf c :=
  ⟨fun h => (kindOf_of_is h).symm, fun h => h ▸ is_kindOf c⟩

/-- The case of the letters does not matter. -/
theorem kindOf_toLower (c : List Byte) : kindOf (c.map toLower) = kindOf c := by
  have hhead : ∀ {b : Byte}, b.toNat < 65 →
      ((c.map toLower).head? = some b ↔ c.head? = some b) := by
    intro b hb
    cases c with
    | nil => rfl
    | cons a c => simp [toLower_eq_iff hb]
  have hnil : c.map toLower = [] ↔ c = [] := List.map_eq_nil_iff
  have hfind : findKeyword (c.map toLower) = findKeyword c := by
    unfold findKeyword
    rw [map_toLower_toLower]
  simp only [kindOf, hnil, hhead (b := 32) (by decide), hhead (b := quote) (by decide),
    isValidInt_toLower, hfind]

/-! ## The row of a token -/

theorem matchKeyword_snd (bs : List Byte) :
    (matchKeyword bs keywords).2 = (findKeyword bs).map Prod.fst :=
  matchKeyword_eq_find bs keywords

theorem tokenType_eq_type (t : Token) : (tokenType t).2 = (kindOf t.bytes).type := by
  obtain ⟨bytes, fits, noNul⟩ := t
  cases bytes with
  | nil => rfl
  | cons b bs =>
    simp only [tokenType, kindOf, List.head?_cons, Option.some.injEq, reduceCtorEq, false_or,
      matchKeyword_snd]
    split_ifs
    · rfl
    · rfl
    · rfl
    · cases findKeyword (b :: bs) <;> rfl

/-- The row that is selected is the one of the kind. -/
theorem readToken_kind (cb : CmdFsmCb) :
    ∃ cb', readToken cb = .ok (cb', (kindOf cb.token.bytes).row) := by
  have htype := tokenType_eq_type cb.token
  unfold readToken
  dsimp only
  rw [htype]
  cases hkind : kindOf cb.token.bytes with
  | nothing => exact ⟨_, rfl⟩
  | string => exact ⟨_, rfl⟩
  | integer => exact ⟨_, rfl⟩
  | other => exact ⟨_, rfl⟩
  | command i =>
    obtain ⟨-, k, hk, -⟩ : Kind.IsCommand i cb.token.bytes :=
      (kindOf_eq_iff _ (.command i)).2 hkind.symm
    have hlt : i < cmdTokens := (List.getElem?_eq_some_iff.1 hk).1
    have hspecial : ∀ {tt : ℤ}, tt < 0 → ¬ (i : ℤ) = tt := by omega
    have hint := @hspecial ttInt (by decide)
    have hstr := @hspecial ttStr (by decide)
    have hunrec := @hspecial ttUnrec (by decide)
    have hnull := @hspecial ttNull (by decide)
    have hrange : ¬ ((i : ℤ) < 0 ∨ (i : ℤ) > cmdTokens) := by omega
    simp only [Kind.type, Kind.row, hint, hstr, hunrec, hnull, hrange, if_false]
    exact ⟨_, rfl⟩

/-- The texts of the rows 35 to 37 are commands of no row. -/
theorem kindOf_unused : ∀ i ∈ [35, 36, 37], ∀ k, keyword[i]? = some k → kindOf k = .other := by
  decide +kernel

/-- **Token classes.** Every token is of exactly one kind, `cmd_fsm` selects the row of this kind,
the row is the same for every token that differs only in the case of its letters, and the words of
the rows 35 to 37 are not commands. -/
theorem token_classes (cb : CmdFsmCb) :
    ∃ kind : Kind, (∀ kind', kind'.Is cb.token.bytes ↔ kind' = kind) ∧
      (∀ cb₂ : CmdFsmCb, cb₂.token.bytes.map toLower = cb.token.bytes.map toLower →
        ∃ cb₂', readToken cb₂ = .ok (cb₂', kind.row)) ∧
      ∀ i ∈ [35, 36, 37], ∀ k, keyword[i]? = some k →
        cb.token.bytes.map toLower = k.map toLower → kind = .other := by
  refine ⟨kindOf cb.token.bytes, kindOf_eq_iff _, fun cb₂ hcase => ?_, fun i hi k hk hcase => ?_⟩
  · rw [← kindOf_toLower cb.token.bytes, ← hcase, kindOf_toLower]
    exact readToken_kind cb₂
  · rw [← kindOf_toLower, hcase, kindOf_toLower]
    exact kindOf_unused i hi k hk

end PconTng
