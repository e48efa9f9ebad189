import PconTng.Typedefs

/-!
# Requests to Scon

`Scon.c` is started by the web server for every reading that a sensor sends. It takes the fields
`sensor`, `temp` and `humid` out of the query string, converts them, and stores them in the entry
of the sensor in shared memory. `readRequest` is everything up to the second lock, `moveReading`
the critical section behind it.

A query string is a list of bytes without a terminator. Decoding an escape may read the terminator
and the byte behind it.
-/

namespace PconTng.Scon

open CMemory CArray

/-- The characters of the query string. -/
abbrev equals : Byte := 61
abbrev ampersand : Byte := 38
abbrev plus : Byte := 43
abbrev percent : Byte := 37
abbrev dot : Byte := 46
abbrev minus : Byte := 45

/-- What lies outside the program: the byte behind the terminator of the query string, and what the
machine makes of `f + d * pow(base, -(i + 1)) * sign` in floating point. -/
structure Host where
  behind : Byte
  accumulate : ℚ → ℤ → ℕ → ℤ → ℚ

/-- How a request can end before it stores a reading: in a loop that does not end, by returning or
exiting, or in a fault of memory. -/
inductive Ending
  | hang
  | quit
  | fault
  deriving DecidableEq

/-! ## Decoding -/

def isDigit (c : Byte) : Bool := 48 ≤ c ∧ c ≤ 57

def isUpper (c : Byte) : Bool := 65 ≤ c ∧ c ≤ 90

def isLower (c : Byte) : Bool := 97 ≤ c ∧ c ≤ 122

def isSpace (c : Byte) : Bool := c = 32 ∨ 9 ≤ c ∧ c ≤ 13

/-- `xctod` -/
def xctod (c : Byte) : ℕ :=
  if isDigit c then c.toNat - 48
  else if isUpper c then c.toNat - 65 + 10
  else if isLower c then c.toNat - 97 + 10
  else 0

/-- The loop of `unescstring` from index `i` of the source on, for at most the given number of
turns. -/
def unescLoop (src : ℕ → Byte) (srclen : ℕ) : ℕ → ℕ → List Byte
  | 0, _ => []
  | k + 1, i =>
    if i < srclen then
      if src i = plus then 32 :: unescLoop src srclen k (i + 1)
      else if src i = percent then
        UInt8.ofNat (16 * xctod (src (i + 1)) + xctod (src (i + 2))) ::
          unescLoop src srclen k (i + 3)
      else src i :: unescLoop src srclen k (i + 1)
    else []

/-- `unescstring`, as the string that it leaves: the characters before the first terminator. Every
turn takes at least one character of the source. -/
def unescstring (behind : Byte) (src : List Byte) (srclen : ℕ) : List Byte :=
  (unescLoop (fun i => (src ++ [0, behind]).getD i 0) srclen srclen 0).takeWhile (· ≠ 0)

/-! ## Fields -/

/-- `strchr` -/
def strchr (p : List Byte) (c : Byte) : Option ℕ := p.findIdx? (· = c)

/-- The comparison of two pointers into one string, one of which may be null. -/
def pointerGt : Option ℕ → Option ℕ → Bool
  | some i, some j => i > j
  | some _, none => true
  | none, _ => false

/-- A turn of the loop of `cgigetval` returns a value, or goes on with the rest of the string. -/
inductive Turn
  | found (value : List Byte)
  | next (p : List Byte)

/-- A turn of the loop of `cgigetval`. Where a field without `=` comes before another one, `p3` is
moved instead of `p`. -/
def cgiTurn (behind : Byte) (fieldname p : List Byte) : Turn :=
  let p2 := strchr p equals
  let p3 := strchr p ampersand
  let len2 := p3.getD p.length
  let skip := let p := p.drop len2; if p.head? = some ampersand then p.drop 1 else p
  if (p2 = none ∨ p3 ≠ none) ∧ pointerGt p2 p3 then .next p
  else
    match p2 with
    | some len1 =>
      if len1 = fieldname.length ∧ p.take len1 = fieldname then
        .found (unescstring behind (p.drop (len1 + 1)) (len2 - len1 - 1))
      else .next skip
    | none => .next skip

/-- The loop of `cgigetval` for a number of turns: nothing if it has not ended by then. -/
def cgiLoop (behind : Byte) (fieldname : List Byte) : ℕ → List Byte → Option (Option (List Byte))
  | 0, _ => none
  | k + 1, p =>
    if p = [] then some none
    else
      match cgiTurn behind fieldname p with
      | .found value => some (some value)
      | .next p => cgiLoop behind fieldname k p

/-- A turn that does not return stays where it is, or goes on behind the field. -/
theorem length_of_cgiTurn_next {behind : Byte} {fieldname p p' : List Byte} (hp : p ≠ [])
    (h : cgiTurn behind fieldname p = .next p') : p' = p ∨ p'.length < p.length := by
  have hskip : (let q := p.drop ((strchr p ampersand).getD p.length)
      if q.head? = some ampersand then q.drop 1 else q).length < p.length := by
    have hpos := List.length_pos_iff.2 hp
    cases hj : strchr p ampersand with
    | none => simpa using hpos
    | some j =>
      obtain ⟨hlt, hc, -⟩ := List.findIdx?_eq_some_iff_getElem.1 hj
      have hhead : (p.drop j).head? = some ampersand := by
        rw [List.head?_drop, List.getElem?_eq_getElem hlt]
        simpa using hc
      simp only [Option.getD_some, hhead, if_true, List.length_drop]
      omega
  unfold cgiTurn at h
  dsimp only at h hskip
  split_ifs at h with hstay hq
  · exact .inl (Turn.next.inj h).symm
  · rw [if_pos hq] at hskip
    split at h <;> [split_ifs at h; skip] <;> cases h <;> exact .inr hskip
  · rw [if_neg hq] at hskip
    split at h <;> [split_ifs at h; skip] <;> cases h <;> exact .inr hskip

/-- When the loop has not ended after more turns than there are characters, it never ends. -/
theorem cgiLoop_eq_none {behind : Byte} {fieldname : List Byte} {k : ℕ} :
    ∀ {p : List Byte}, p.length < k → cgiLoop behind fieldname k p = none →
      ∀ j, cgiLoop behind fieldname j p = none := by
  induction k with
  | zero => exact fun hlt => absurd hlt (Nat.not_lt_zero _)
  | succ k ih =>
    intro p hlt hnone
    rw [cgiLoop] at hnone
    split_ifs at hnone with hp
    cases ht : cgiTurn behind fieldname p with
    | found value =>
      rw [ht] at hnone
      cases hnone
    | next p' =>
      rw [ht] at hnone
      -- the next turn starts at the same place, or with a shorter string
      have hrest : ∀ j, cgiLoop behind fieldname j p' = none → cgiLoop behind fieldname (j + 1) p =
          none := fun j hj => by rw [cgiLoop, if_neg hp, ht]; exact hj
      intro j
      induction j with
      | zero => rfl
      | succ j ihj =>
        rcases length_of_cgiTurn_next hp ht with rfl | hshort
        · exact hrest j ihj
        · exact hrest j (ih (by omega) hnone j)

/-- `cgigetval`. The loop ends after one turn for each character, or never. -/
def cgigetval (behind : Byte) (querystring : Option (List Byte)) (fieldname : List Byte) :
    Except Ending (Option (List Byte)) :=
  match querystring with
  | none => .ok none
  | some p =>
    match cgiLoop behind fieldname (p.length + 1) p with
    | some value => .ok value
    | none => .error .hang

/-! ## Numbers -/

/-- `strtol` with base 10, for a `long` of 32 bits. -/
def strtol (s : List Byte) : ℤ :=
  let s := s.dropWhile isSpace
  let neg : Bool := s.head? = some minus
  let s := if neg ∨ s.head? = some plus then s.drop 1 else s
  let n : ℕ := (s.takeWhile isDigit).foldl (fun n c => 10 * n + (c.toNat - 48)) 0
  if neg then max (-2 ^ 31) (-n) else min (2 ^ 31 - 1) n

/-- `strtok` with the delimiter `.`: the token and what is left for the next call. -/
def strtok (s : List Byte) : Option (List Byte × List Byte) :=
  let s := s.dropWhile (· = dot)
  if s = [] then none
  else some (s.takeWhile (· ≠ dot), (s.dropWhile (· ≠ dot)).drop 1)

/-- `new_strtof` with base 10. Both parts of the number are used without a check. -/
def newStrtof (accumulate : ℚ → ℤ → ℕ → ℤ → ℚ) (ostr : List Byte) : Except Ending ℚ := do
  match strtok ostr with
  | none => .error .fault
  | some (beforeTheDot, rest) =>
    match strtok rest with
    | none => .error .fault
    | some (afterTheDot, _) =>
      let sign : ℤ := if ostr.head? = some minus then -1 else 1
      return afterTheDot.zipIdx.foldl (fun f (c, i) => accumulate f (strtol [c]) i sign)
        (floatOfInt (strtol beforeTheDot))

/-! ## The request -/

/-- A reading as it is stored. -/
structure Reading where
  num : ℤ
  temp : ℚ
  humid : ℚ
  deriving DecidableEq

/-- `main`, from the query string to the reading. The test on the range of the sensor number looks
at the first character of its text. -/
def readRequest (host : Host) (query : Option (List Byte)) : Except Ending Reading := do
  let sNum ← cgigetval host.behind query (str "sensor")
  let sTemp ← cgigetval host.behind query (str "temp")
  let sHumid ← cgigetval host.behind query (str "humid")
  match sNum, sTemp, sHumid with
  | some sNum, some sTemp, some sHumid =>
    let lNum := strtol sNum
    if lNum = 0 then .error .quit
    else if lNum < 0 ∧ sNum.headD 0 > 99 then .error .quit
    else do
      let lTemp ← newStrtof host.accumulate sTemp
      if lTemp = 0 then .error .quit
      else do
        let lHumid ← newStrtof host.accumulate sHumid
        if lHumid = 0 then .error .quit
        else return ⟨lNum, lTemp, lHumid⟩
  | _, _, _ => .error .quit

/-- The critical section of `main`: store the reading, with the time `now`. When the time cannot be
obtained, only the failed time is stored. -/
def moveReading (r : Reading) (now : ℤ) (sDat : Vector SenDat numberOfSensors) :
    Except Stop (Vector SenDat numberOfSensors) := do
  let s ← load sDat r.num
  if now = -1 then store sDat r.num { s with ts := now }
  else
    store sDat r.num { s with ts := now, sensorId := r.num, temp := r.temp, humidity := r.humid }

end PconTng.Scon
