import PconTng.CmdFsm.Fsm
import PconTng.Foundations.Run

/-!
# Editing sessions

A session of the user is a list of operations: each is a routine of the action table, run on a token
that `cmdFsm` has read (`Op.exec`). Which routines a token can reach in which state is the business
of the tables; here the routines come in any order.
-/

namespace PconTng

open CMemory CArray

/-! ## What is read from a token -/

/-- The characters of the token as reading leaves them in the token buffer. -/
def Token.text (t : Token) : Token := (tokenType t).1

/-- The value of a token that is not empty. -/
def Token.value (t : Token) : ℤ :=
  let (token, tt) := tokenType t
  if tt = ttInt then scanU token.bytes
  else if tt = ttStr then -1
  else if tt = ttUnrec then -1
  else tt

theorem Token.length_text (t : Token) : t.text.bytes.length = t.bytes.length := by
  unfold Token.text tokenType
  split
  · rfl
  · split_ifs <;> try rfl
    split <;> exact length_matchKeyword _ _

theorem matchKeyword_mem {bs : List Byte} {ks : List (ℕ × List Byte)} {i : ℕ}
    (h : (matchKeyword bs ks).2 = some i) : i ∈ ks.map Prod.fst := by
  induction ks generalizing bs with
  | nil => cases h
  | cons k ks ih =>
    obtain ⟨j, k⟩ := k
    rw [List.map_cons, List.mem_cons]
    simp only [matchKeyword] at h
    split_ifs at h
    · exact .inl (Option.some.inj h).symm
    · exact .inr (ih h)
    · exact .inr (ih h)

theorem keywords_lt : ∀ i ∈ keywords.map Prod.fst, i < cmdTokens := by decide +kernel

/-- The type of a token is one of the four special ones or the number of a keyword. -/
theorem tokenType_mem (t : Token) :
    (tokenType t).2 ∈ [ttInt, ttStr, ttUnrec, ttNull] ∨
      0 ≤ (tokenType t).2 ∧ (tokenType t).2 < cmdTokens := by
  have hspecial : ∀ tt ∈ [ttNull, ttStr, ttInt, ttUnrec],
      tt ∈ [ttInt, ttStr, ttUnrec, ttNull] := by decide
  unfold tokenType
  split
  · exact .inl (hspecial ttNull (by decide))
  · split_ifs
    · exact .inl (hspecial ttNull (by decide))
    · exact .inl (hspecial ttStr (by decide))
    · exact .inl (hspecial ttInt (by decide))
    · dsimp only
      split
      · rename_i i hi
        have hlt : i < cmdTokens := keywords_lt i (matchKeyword_mem hi)
        exact .inr ⟨Int.natCast_nonneg i, Int.ofNat_lt.2 hlt⟩
      · exact .inl (hspecial ttUnrec (by decide))

theorem tokenType_ne_null {t : Token} (h : 0 ≤ t.value) : (tokenType t).2 ≠ ttNull := by
  intro hnull
  have hvalue : t.value = ttNull := by
    simp only [Token.value, hnull]
    rfl
  rw [hvalue] at h
  exact absurd h (by decide)

/-- The memory after the token has been read. -/
def World.read (w : World) (t : Token) : World :=
  w.setCb { w.cb with
    token := t.text
    tokenType := (tokenType t).2
    tokenValue := if (tokenType t).2 = ttNull then w.cb.tokenValue else t.value }

/-- The row of the tables for a token of the given type. -/
def tokenRow (tt : ℤ) : Option ℤ :=
  if tt = ttInt then some 35
  else if tt = ttStr then some 36
  else if tt = ttUnrec then some 37
  else if tt = ttNull then none
  else some tt

theorem tokenRow_eq_none {tt : ℤ} : tokenRow tt = none ↔ tt = ttNull := by
  unfold tokenRow
  split_ifs with hint hstr hunrec hnull
  · simp [hint, ttInt, ttNull]
  · simp [hstr, ttStr, ttNull]
  · simp [hunrec, ttUnrec, ttNull]
  · simp [hnull]
  · simp [hnull]

/-- Reading always succeeds. It puts the text, the type and the value of the token into the control
block. -/
theorem readToken_feed (w : World) (t : Token) :
    readToken (w.feed t).cb = .ok ((w.read t).cb, tokenRow (tokenType t).2) := by
  have hmem := tokenType_mem t
  simp only [List.mem_cons, List.not_mem_nil, or_false] at hmem
  change readToken { w.cb with token := t } = .ok ({ w.cb with
    token := t.text
    tokenType := (tokenType t).2
    tokenValue := if (tokenType t).2 = ttNull then w.cb.tokenValue else t.value }, _)
  simp only [readToken, tokenRow, Token.text, Token.value, ttInt, ttStr, ttUnrec, ttNull] at hmem ⊢
  rcases hmem with (h | h | h | h) | ⟨h0, hlt⟩
  · simp [h]
  · simp [h]
  · simp [h]
  · simp [h]
  · have hle : ¬ (tokenType t).2 > cmdTokens := by
      simp only [cmdTokens, Nat.cast_ofNat] at hlt ⊢
      omega
    have hne : ∀ k : ℤ, k < 0 → (tokenType t).2 ≠ k := fun k hk he => by omega
    have hnot : ¬ ((tokenType t).2 < 0 ∨ (tokenType t).2 > cmdTokens) := by
      rintro (hlt | hgt)
      · omega
      · exact hle hgt
    simp only [if_neg (hne _ (show (-1 : ℤ) < 0 by decide)),
      if_neg (hne _ (show (-2 : ℤ) < 0 by decide)), if_neg (hne _ (show (-3 : ℤ) < 0 by decide)),
      if_neg (hne _ (show (-4 : ℤ) < 0 by decide)), if_neg hnot]

/-- The entry for a token whose row is in the tables. -/
theorem dispatch_entry {w : World} {t : Token} {i : Fin cmdTokens} {s : Fin cmdStates}
    (hs : w.cb.state = s.val) (hi : tokenRow (tokenType t).2 = some (i.val : ℤ)) :
    dispatch (w.feed t) = .ok (w.read t, some ((i.val : ℤ), (cmdAction.get i).get s)) := by
  have hstate : (w.read t).cb.state = s.val := hs
  have hentry : entry cmdAction (i.val : ℤ) (w.read t).cb.state =
      .ok ((cmdAction.get i).get s) := by
    rw [hstate]
    simp only [entry, load_natCast _ i.isLt, bind, Except.bind]
    exact load_natCast _ s.isLt
  simp only [dispatch, readToken_feed, hi, bind, Except.bind, hentry]
  rfl

/-- The entry that is found is one of the row of the token. -/
theorem dispatch_feed {w w' : World} {t : Token} {called : Option (ℤ × Act)}
    (h : dispatch (w.feed t) = .ok (w', called)) :
    w' = w.read t ∧ tokenRow (tokenType t).2 = called.map Prod.fst := by
  simp only [dispatch, readToken_feed, bind, Except.bind] at h
  cases hrow : tokenRow (tokenType t).2 with
  | none =>
    rw [hrow] at h
    cases h
    exact ⟨rfl, rfl⟩
  | some index =>
    rw [hrow] at h
    obtain ⟨act, -, h⟩ := bind_eq_ok.1 h
    cases h
    exact ⟨rfl, rfl⟩

/-! ## Operations -/

/-- A routine, the token it is run on, and what lies outside the program at that time. -/
structure Op where
  env : Env
  act : Act
  token : Token

/-- Read the token and run the routine, unless the token is empty. -/
def Op.exec (w : World) (o : Op) : Except Stop World := do
  let (cb, row) ← readToken (w.feed o.token).cb
  match row with
  | none => return w.setCb cb
  | some _ =>
    let (w, _) ← o.act.run o.env (w.setCb cb)
    return w

/-- What an operation does. -/
theorem Op.exec_eq (w : World) (o : Op) :
    o.exec w = if (tokenType o.token).2 = ttNull then .ok (w.read o.token)
      else (o.act.run o.env (w.read o.token)).map Prod.fst := by
  simp only [Op.exec, readToken_feed, bind, Except.bind]
  cases hrow : tokenRow (tokenType o.token).2 with
  | none =>
    rw [if_pos (tokenRow_eq_none.1 hrow)]
    rfl
  | some i =>
    have hset : w.setCb (w.read o.token).cb = w.read o.token := rfl
    have hnull : (tokenType o.token).2 ≠ ttNull := fun h => by
      cases hrow.symm.trans (tokenRow_eq_none.2 h)
    rw [if_neg hnull, hset]
    cases o.act.run o.env (w.read o.token) <;> rfl

/-- An operation on a token that is not empty returns when its routine does. -/
theorem Op.exec_of_run {env : Env} {act : Act} {t : Token} {w : World} {P : World → Prop}
    (hnull : (tokenType t).2 ≠ ttNull)
    (hrun : ∃ w' ret, act.run env (w.read t) = .ok (w', ret) ∧ P w') :
    ∃ w', Op.exec w ⟨env, act, t⟩ = .ok w' ∧ P w' := by
  obtain ⟨w', ret, hrun, hw'⟩ := hrun
  refine ⟨w', ?_, hw'⟩
  rw [Op.exec_eq, if_neg hnull, hrun]
  rfl

/-- An operation on a token that is not empty, if it returns. -/
theorem Op.run_of_exec {env : Env} {act : Act} {t : Token} {w w' : World}
    (hnull : (tokenType t).2 ≠ ttNull) (h : Op.exec w ⟨env, act, t⟩ = .ok w') :
    ∃ ret, act.run env (w.read t) = .ok (w', ret) := by
  rw [Op.exec_eq, if_neg hnull] at h
  dsimp only at h
  cases hrun : act.run env (w.read t) with
  | error e =>
    rw [hrun] at h
    cases h
  | ok r =>
    rw [hrun] at h
    cases h
    exact ⟨r.2, rfl⟩

end PconTng
