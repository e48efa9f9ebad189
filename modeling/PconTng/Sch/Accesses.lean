import PconTng.Sch.Template

/-!
# Which records are accessed

`del_tmpl_rec` and `add_tmpl_rec` once more, with the way of reading a record in their shifting
loops as a parameter; every other access to the records is checked already. With every read checked,
the routines succeed on a well formed template exactly when all indices are inside the array. They
are, except where a record is put in front of the first one: the loop that makes room runs one turn
too far and reads the record at the index -1 (`inside_iff`).
-/

namespace PconTng.Accesses

open CMemory CArray Keyed

/-! ## The routines -/

/-- A way of reading a record of a template. -/
abbrev Read : Type := Vector SRec (maxScheduleRecs + 1) → ℤ → Except Stop SRec

/-- `del_tmpl_rec` -/
def delTmplRecWith (read : Read) (t : TmplDat) (hour minute : ℤ) : Except Stop (TmplDat × ℤ) := do
  let key := hour * 60 + minute
  if t.rcnt = 1 ∧ (t.recs.get ⟨0, Nat.succ_pos _⟩).key = key then
    return ({ t with rcnt := 0 }, 0)
  match ← search (fun r => r.key = key) t.recs t.rcnt.toNat 0 with
  | some i =>
    let recs ← shiftDownWith read (t.rcnt.toNat - 1 - i) i t.recs
    return ({ t with rcnt := t.rcnt - 1, recs := recs }, 0)
  | none => return (t, 1)

/-- `add_tmpl_rec` -/
def addTmplRecWith (read : Read) (t : TmplDat) (hour minute state temp humid : ℤ) :
    Except Stop (TmplDat × ℤ) := do
  let key := hour * 60 + minute
  match ← search (fun r => r.key = key) t.recs t.rcnt.toNat 0 with
  | some i =>
    let r ← load t.recs i
    let recs ← store t.recs i
      { r with state := state, temp := floatOfInt temp, humid := floatOfInt humid }
    return ({ t with recs := recs }, 0)
  | none =>
    if t.rcnt + 1 > maxScheduleRecs then return (t, 1)
    let hrec : SRec := ⟨key, state, floatOfInt temp, floatOfInt humid⟩
    if t.rcnt = 0 then
      let recs ← store t.recs 0 hrec
      return ({ t with rcnt := t.rcnt + 1, recs := recs }, 0)
    match ← search (fun r => r.key > key) t.recs t.rcnt.toNat 0 with
    | some i =>
      let recs ← insertAtWith read t.recs i t.rcnt.toNat hrec
      return ({ t with rcnt := t.rcnt + 1, recs := recs }, 0)
    | none =>
      let recs ← store t.recs t.rcnt hrec
      return ({ t with rcnt := t.rcnt + 1, recs := recs }, 0)

/-- Reading whatever lies in front of the records. -/
def readStray (t : TmplDat) : Read := fun recs i => .ok (peek (fun _ => recBefore t) recs i)

/-- With this way of reading they are the routines of the program. -/
theorem delTmplRecWith_stray (t : TmplDat) (hour minute : ℤ) :
    delTmplRecWith (readStray t) t hour minute = delTmplRec t hour minute := by
  unfold delTmplRecWith delTmplRec readStray
  rewrite [shiftDownWith_peek]
  rfl

theorem addTmplRecWith_stray (t : TmplDat) (hour minute state temp humid : ℤ) :
    addTmplRecWith (readStray t) t hour minute state temp humid =
      addTmplRec t hour minute state temp humid := by
  unfold addTmplRecWith addTmplRec readStray
  rewrite [insertAtWith_peek]
  rfl

/-- Every access to the records is at an index of the array. -/
structure Inside (t : TmplDat) (hour minute : ℤ) : Prop where
  add : ∀ state temp humid, ∃ r, addTmplRecWith load t hour minute state temp humid = .ok r
  del : ∃ r, delTmplRecWith load t hour minute = .ok r

/-- A new record would be put in front of the first one. -/
def InFront (t : TmplDat) (hour minute : ℤ) : Prop :=
  0 < t.rcnt ∧ t.rcnt < maxScheduleRecs ∧ hour * 60 + minute < (t.recs.get ⟨0, Nat.succ_pos _⟩).key

/-! ## When the reads are inside -/

variable {t : TmplDat} {hour minute : ℤ}

/-- Deleting reads no other records than those of the template. -/
theorem delTmplRecWith_load (h : t.Wf) (hour minute : ℤ) :
    delTmplRecWith load t hour minute = delTmplRec t hour minute := by
  have hlen := h.length_live
  have hlt := h.toNat_lt
  unfold delTmplRecWith delTmplRec
  dsimp only
  rw [search_key h]
  cases hf : t.live.findIdx? fun r => r.key = hour * 60 + minute with
  | none => rfl
  | some i =>
    obtain ⟨hi, -, -⟩ := List.findIdx?_eq_some_iff_getElem.1 hf
    have hshift := shiftDownWith_load (fun _ => recBefore t) t.recs
      (show i + (t.rcnt.toNat - 1 - i) < maxScheduleRecs + 1 by omega)
    simp only [bind, Except.bind, hshift]
    rfl

/-- The first record with a greater key is the first one of all if that has a greater key. -/
theorem findIdx?_greater {key : ℤ} {i : ℕ}
    (hi : (t.live.findIdx? fun r => r.key > key) = some i) :
    i = 0 ↔ key < (t.recs.get 0).key := by
  obtain ⟨hlt, hgreater, hbefore⟩ := List.findIdx?_eq_some_iff_getElem.1 hi
  have hfirst : t.recs.get 0 = t.live[0] := (TmplDat.getElem_live _).symm
  rw [hfirst]
  constructor
  · rintro rfl
    simpa using hgreater
  · intro hkey
    by_contra hne
    exact absurd hkey (by simpa using hbefore 0 (Nat.pos_of_ne_zero hne))

/-- Where the record is not put in front, adding reads no others either. -/
theorem addTmplRecWith_load (h : t.Wf) (hfront : ¬ InFront t hour minute) (state temp humid : ℤ) :
    addTmplRecWith load t hour minute state temp humid =
      addTmplRec t hour minute state temp humid := by
  have hlen := h.length_live
  have hlt := h.toNat_lt
  have hnonneg := h.nonneg
  unfold addTmplRecWith addTmplRec
  dsimp only
  rw [search_key h, search_key h]
  cases hf : t.live.findIdx? fun r => r.key = hour * 60 + minute with
  | some i => rfl
  | none =>
    cases hg : t.live.findIdx? fun r => r.key > hour * 60 + minute with
    | none => rfl
    | some i =>
      simp only [bind, Except.bind]
      split_ifs with hfull hzero
      · rfl
      · rfl
      · obtain ⟨hi, -, -⟩ := List.findIdx?_eq_some_iff_getElem.1 hg
        have hpos : 0 < i := by
          by_contra hne
          have hkey := (findIdx?_greater hg).1 (by omega)
          exact hfront ⟨by omega, by omega, hkey⟩
        rw [insertAtWith_load (fun _ => recBefore t) t.recs hpos (by omega) (by omega)]

/-- The keys increase, so no record has a key in front of the first one. -/
theorem addTmplRecWith_front (h : t.Wf) (hfront : InFront t hour minute) (state temp humid : ℤ) :
    addTmplRecWith load t hour minute state temp humid = .error .fault := by
  obtain ⟨hpos, hroom, hkey⟩ := hfront
  have hlen := h.length_live
  have hlt := h.toNat_lt
  have hlive : 0 < t.live.length := by omega
  have hfirst : t.recs.get ⟨0, Nat.succ_pos _⟩ = t.live[0] := (TmplDat.getElem_live _).symm
  rw [hfirst] at hkey
  have hf : (t.live.findIdx? fun r => r.key = hour * 60 + minute) = none := by
    rw [List.findIdx?_eq_none_iff]
    intro r hr
    obtain ⟨j, hj, rfl⟩ := List.getElem_of_mem hr
    have hle := h.increasing.le (Nat.zero_le j) hj
    simpa using (hkey.trans_le hle).ne'
  have hg : (t.live.findIdx? fun r => r.key > hour * 60 + minute) = some 0 := by
    rw [List.findIdx?_eq_some_iff_getElem]
    exact ⟨hlive, by simpa using hkey, fun j hj => absurd hj (Nat.not_lt_zero j)⟩
  have hfull : ¬ t.rcnt + 1 > maxScheduleRecs := by omega
  have hzero : ¬ t.rcnt = 0 := by omega
  unfold addTmplRecWith
  dsimp only
  rw [search_key h, search_key h, hf, hg]
  simp only [bind, Except.bind, if_neg hfull, if_neg hzero,
    insertAtWith_load_zero t.recs hlt]

/-- **When the accesses are inside.** -/
theorem inside_iff (h : t.Wf) (hour minute : ℤ) :
    Inside t hour minute ↔ ¬ InFront t hour minute := by
  constructor
  · rintro ⟨hadd, -⟩ hfront
    obtain ⟨r, hr⟩ := hadd 0 0 0
    rw [addTmplRecWith_front h hfront] at hr
    cases hr
  · intro hfront
    refine ⟨fun state temp humid => ?_, ?_⟩
    · obtain ⟨t', ret, hadd, -⟩ := addTmplRec_cases h hour minute state temp humid
      exact ⟨_, (addTmplRecWith_load h hfront state temp humid).trans hadd⟩
    · obtain ⟨t', ret, hdel, -⟩ := delTmplRec_cases h hour minute
      exact ⟨_, (delTmplRecWith_load h hour minute).trans hdel⟩

/-- One record, at six o'clock. -/
def six : TmplDat :=
  { TmplDat.zero with
    rcnt := 1
    recs := TmplDat.zero.recs.set 0 ⟨360, 1, 70, 50⟩ (Nat.succ_pos _) }

theorem six_wf : six.Wf := by
  have hlive : six.live = [⟨360, 1, 70, 50⟩] := by decide +kernel
  exact ⟨by decide, by decide, by rw [hlive]; simp [Increasing]⟩

/-- A record for seven o'clock goes behind it. -/
theorem inside_seven : Inside six 7 0 :=
  (inside_iff six_wf 7 0).2 fun h => absurd h.2.2 (by decide +kernel)

/-- One for five o'clock goes in front of it. -/
theorem not_inside : ¬ ∀ (t : TmplDat) (hour minute : ℤ), t.Wf → (0 ≤ hour ∧ hour ≤ 23) →
    (0 ≤ minute ∧ minute ≤ 59) → Inside t hour minute := by
  intro hall
  obtain ⟨r, hr⟩ := (hall six 5 0 six_wf (by decide) (by decide)).add 0 0 0
  have hfront : InFront six 5 0 := ⟨by decide, by decide, by decide +kernel⟩
  rw [addTmplRecWith_front six_wf hfront] at hr
  cases hr

end PconTng.Accesses
