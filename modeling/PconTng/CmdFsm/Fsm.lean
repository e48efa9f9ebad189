import PconTng.CmdFsm.Actions

/-!
# The command processor

`cmd_fsm.c` takes one token at a time. `readToken` finds the row of the tables that the token
belongs to and its value; `cmdFsm` runs the routine at this row and the current state, and goes to
the next state if it returned 0. If it returned 1, the rest of the line is dropped.
-/

namespace PconTng

open CMemory CArray

abbrev ttInt : ℤ := -1
abbrev ttStr : ℤ := -2
abbrev ttNull : ℤ := -3
abbrev ttUnrec : ℤ := -4

/-! ## The type of a token -/

def isDigit (b : Byte) : Bool := 48 ≤ b ∧ b ≤ 57

def toLower (b : Byte) : Byte := if 65 ≤ b ∧ b ≤ 90 then b + 32 else b

/-- `is_valid_int` -/
def isValidInt : List Byte → Bool
  | [] => false
  | [b] => isDigit b
  | b :: bs => (b = 45 || isDigit b) && bs.all isDigit

/-- One of the loops over the keywords in `token_type`. A token of the length of a keyword is put
into lower case before it is compared, and stays so. -/
def matchKeyword (bs : List Byte) : List (ℕ × List Byte) → List Byte × Option ℕ
  | [] => (bs, none)
  | (i, k) :: rest =>
    if bs.length = k.length then
      let bs := bs.map toLower
      if bs = k then (bs, some i) else matchKeyword bs rest
    else matchKeyword bs rest

/-- The keywords that are compared with a token, with their numbers. -/
def keywords : List (ℕ × List Byte) :=
  (keyword.zipIdx.filter fun (_, i) => i < 35 ∨ 38 ≤ i).map Prod.swap

theorem length_matchKeyword (bs : List Byte) (ks : List (ℕ × List Byte)) :
    (matchKeyword bs ks).1.length = bs.length := by
  induction ks generalizing bs with
  | nil => rfl
  | cons k ks ih =>
    simp only [matchKeyword]
    split_ifs <;> simp [ih]

theorem toLower_ne_zero {b : Byte} (h : b ≠ 0) : toLower b ≠ 0 := by
  unfold toLower
  split_ifs with hb
  · intro h0
    have hle : b.toNat ≤ 90 := UInt8.le_iff_toNat_le.1 hb.2
    have hsum := congrArg UInt8.toNat h0
    rw [UInt8.toNat_add] at hsum
    simp at hsum
    omega
  · exact h

theorem zero_notMem_matchKeyword {bs : List Byte} (h : 0 ∉ bs) (ks : List (ℕ × List Byte)) :
    0 ∉ (matchKeyword bs ks).1 := by
  have hmap : ∀ {bs : List Byte}, 0 ∉ bs → 0 ∉ bs.map toLower := by
    intro bs h hmem
    obtain ⟨b, hb, he⟩ := List.mem_map.1 hmem
    exact toLower_ne_zero (fun h0 => h (h0 ▸ hb)) he
  induction ks generalizing bs with
  | nil => exact h
  | cons k ks ih =>
    simp only [matchKeyword]
    split_ifs
    · exact hmap h
    · exact ih (hmap h)
    · exact ih h

/-- `token_type`, with the token as it leaves it. -/
def tokenType (t : Token) : Token × ℤ :=
  match t.bytes with
  | [] => (t, ttNull)
  | b :: _ =>
    if b = 32 then (t, ttNull)
    else if b = quote then (t, ttStr)
    else if isValidInt t.bytes then (t, ttInt)
    else
      let t' : Token := ⟨(matchKeyword t.bytes keywords).1,
        (length_matchKeyword _ _).trans_lt t.fits, zero_notMem_matchKeyword t.noNul _⟩
      match (matchKeyword t.bytes keywords).2 with
      | some i => (t', i)
      | none => (t', ttUnrec)

/-- `sscanf` with the format `%u`: too large a number is read as the largest one, and the unsigned
number is put into an `int`. -/
def scanU (bs : List Byte) : ℤ :=
  let digits := bs.dropWhile (· = 45)
  let n := digits.foldl (fun n b => 10 * n + (b.toNat - 48)) 0
  if n ≥ 2 ^ 32 then toSigned (2 ^ 32 - 1)
  else if bs.head? = some 45 then toSigned ((2 ^ 32 - n) % 2 ^ 32)
  else toSigned n

/-! ## One token -/

/-- The first half of `cmd_fsm`: the type and value of the token, and the row of the tables, or
nothing for an empty token. -/
def readToken (cb : CmdFsmCb) : Except Stop (CmdFsmCb × Option ℤ) :=
  let (token, tt) := tokenType cb.token
  let cb := { cb with token := token, tokenType := tt }
  if tt = ttInt then .ok ({ cb with tokenValue := scanU token.bytes }, some 35)
  else if tt = ttStr then .ok ({ cb with tokenValue := -1 }, some 36)
  else if tt = ttUnrec then .ok ({ cb with tokenValue := -1 }, some 37)
  else if tt = ttNull then .ok (cb, none)
  else if tt < 0 ∨ tt > cmdTokens then .error .exit
  else .ok ({ cb with tokenValue := tt }, some tt)

/-- The entry of a table. -/
def entry {α : Type} (table : Vector (Vector α cmdStates) cmdTokens) (index : ℤ) (state : ℕ) :
    Except Stop α := do
  load (← load table index) state

/-- The row of the token and the routine at this row and the current state, or nothing for an empty
token. -/
def dispatch (w : World) : Except Stop (World × Option (ℤ × Act)) := do
  let (cb, row) ← readToken w.cb
  match row with
  | none => return (w.setCb cb, none)
  | some index =>
    let act ← entry cmdAction index cb.state
    return (w.setCb cb, some (index, act))

/-- `cmd_fsm` -/
def cmdFsm (env : Env) (w : World) : Except Stop World := do
  match ← dispatch w with
  | (w, none) => return w
  | (w, some (index, act)) =>
    let (w, ret) ← act.run env w
    if ret = 0 then
      let state ← entry cmdNewState index w.cb.state
      return w.setCb { w.cb with state := state }
    else if ret = 1 then
      return { w.setCb { w.cb with token := Token.empty } with queue := [] }
    else if ret = 2 then return w
    else .error .exit

/-- `cmd_fsm_reset` -/
def cmdFsmReset (cb : CmdFsmCb) : CmdFsmCb := { cb with state := 0 }

/-- A token put into the token buffer. -/
def World.feed (w : World) (t : Token) : World := w.setCb { w.cb with token := t }

namespace Token

/-- The tokens "on", "save", "5" and "8". -/
def on : Token := ⟨str "on", by decide, by decide⟩

def save : Token := ⟨str "save", by decide, by decide⟩

def five : Token := ⟨str "5", by decide, by decide⟩

def eight : Token := ⟨str "8", by decide, by decide⟩

end Token

/-! ## What one token does -/

theorem entry_eq_ok {α : Type} {table : Vector (Vector α cmdStates) cmdTokens} {index : ℤ}
    {state : ℕ} {x : α} (h : entry table index state = .ok x) :
    ∃ (i : Fin cmdTokens) (s : Fin cmdStates), index = i.val ∧ state = s.val ∧
      (table.get i).get s = x := by
  obtain ⟨row, hrow, h⟩ := bind_eq_ok.1 h
  unfold load at hrow h
  split at hrow
  · rename_i hi
    split at h
    · rename_i hs
      refine ⟨⟨index.toNat, hi.2⟩, ⟨state, by simpa using hs.2⟩, by simp [hi.1], rfl, ?_⟩
      cases hrow
      cases h
      rfl
    · cases h
  · cases hrow

/-- The token is read without touching the working data. -/
theorem readToken_eq {cb cb' : CmdFsmCb} {row : Option ℤ} (h : readToken cb = .ok (cb', row)) :
    ∃ token tt value, cb' = { cb with token := token, tokenType := tt, tokenValue := value } ∧
      ∀ i : ℤ, row = some i → i ∉ [(35 : ℤ), 36, 37] → tt = i := by
  unfold readToken at h
  dsimp only at h
  split_ifs at h <;> cases h <;>
    exact ⟨_, _, _, rfl, fun i hi hne => by simp_all⟩

/-- What `dispatch` finds. -/
theorem dispatch_cases {w w₁ : World} {r : Option (ℤ × Act)} (h : dispatch w = .ok (w₁, r)) :
    ∃ token tt value,
      w₁ = w.setCb { w.cb with token := token, tokenType := tt, tokenValue := value } ∧
      ∀ index act, r = some (index, act) →
        (∃ (i : Fin cmdTokens) (s : Fin cmdStates), index = i.val ∧ w.cb.state = s.val ∧
          (cmdAction.get i).get s = act) ∧ (index ∉ [(35 : ℤ), 36, 37] → tt = index) := by
  obtain ⟨⟨cb, row⟩, hread, h⟩ := bind_eq_ok.1 h
  obtain ⟨token, tt, value, rfl, hrow⟩ := readToken_eq hread
  cases row with
  | none =>
    cases h
    exact ⟨token, tt, value, rfl, fun _ _ h => by cases h⟩
  | some i =>
    obtain ⟨act, hentry, h⟩ := bind_eq_ok.1 h
    cases h
    refine ⟨token, tt, value, rfl, fun index act' h => ?_⟩
    cases h
    exact ⟨entry_eq_ok hentry, hrow _ rfl⟩

/-- What `cmdFsm` does with a token: nothing but reading it if it is empty, and otherwise what the
routine does and what its return value asks for. -/
theorem cmdFsm_cases {env : Env} {w w' : World} (h : cmdFsm env w = .ok w') :
    dispatch w = .ok (w', none) ∨
      ∃ w₁ index act w₂ ret, dispatch w = .ok (w₁, some (index, act)) ∧
        act.run env w₁ = .ok (w₂, ret) ∧
        ((ret = 0 ∧ ∃ state, entry cmdNewState index w₂.cb.state = .ok state ∧
            w' = w₂.setCb { w₂.cb with state := state }) ∨
          (ret = 1 ∧ w' = { w₂.setCb { w₂.cb with token := Token.empty } with queue := [] }) ∨
          (ret = 2 ∧ w' = w₂)) := by
  obtain ⟨⟨w₁, r⟩, hd, h⟩ := bind_eq_ok.1 h
  rcases r with _ | ⟨index, act⟩
  · cases h
    exact .inl hd
  · obtain ⟨⟨w₂, ret⟩, hrun, h⟩ := bind_eq_ok.1 h
    refine .inr ⟨w₁, index, act, w₂, ret, hd, hrun, ?_⟩
    dsimp only at h
    split_ifs at h with h0 h1 h2
    · obtain ⟨state, hstate, h⟩ := bind_eq_ok.1 h
      cases h
      exact .inl ⟨h0, state, hstate, rfl⟩
    · cases h
      exact .inr (.inl ⟨h1, rfl⟩)
    · cases h
      exact .inr (.inr ⟨h2, rfl⟩)

end PconTng
