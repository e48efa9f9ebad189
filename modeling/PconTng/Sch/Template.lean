import PconTng.Foundations.Keyed
import PconTng.Typedefs

/-!
# Schedule templates

The routines of `sch.c` that edit a template: `findTmplKey`, `delTmplRec`, `addTmplRec`, and the
check on the record count in `loadTemps`. A template is well formed (`TmplDat.Wf`) when its record
count is in range and the keys of the records in use (`TmplDat.live`) increase. On a well formed
template adding and deleting a record never touch memory outside the record array, and the result
is again well formed; `addTmplRec_cases` and `delTmplRec_cases` say what it is.
-/

namespace PconTng

open CMemory CArray Keyed

/-! ## The routines -/

/-- `find_tmpl_key`. Every turn of the loop looks at the first record. -/
def findTmplKey (t : TmplDat) (hour minute : ℤ) : ℤ :=
  let key := hour * 60 + minute
  match (List.range t.rcnt.toNat).find? fun _ => (t.recs.get 0).key = key with
  | some i => i
  | none => -1

/-- What lies where a record in front of the first one would be: the end of the name, and the
record count. -/
def recBefore (t : TmplDat) : SRec :=
  let word (i : ℕ) := (t.name.toList.drop i).take 4
  ⟨intOfBytes (word 28), intOfBytes (word 32), floatOfBits (unsignedOf (word 36)),
    floatOfBits (unsignedOf (intBytes t.rcnt))⟩

/-- `del_tmpl_rec` -/
def delTmplRec (t : TmplDat) (hour minute : ℤ) : Except Stop (TmplDat × ℤ) := do
  let key := hour * 60 + minute
  if t.rcnt = 1 ∧ (t.recs.get 0).key = key then
    return ({ t with rcnt := 0 }, 0)
  match ← search (fun r => r.key = key) t.recs t.rcnt.toNat 0 with
  | some i =>
    let recs ← shiftDown (fun _ => recBefore t) (t.rcnt.toNat - 1 - i) i t.recs
    return ({ t with rcnt := t.rcnt - 1, recs := recs }, 0)
  | none => return (t, 1)

/-- `add_tmpl_rec`. The integers `temp` and `humid` are stored as floats. Making room in front of
the first record reads the memory before it, and the value read is overwritten. -/
def addTmplRec (t : TmplDat) (hour minute state temp humid : ℤ) : Except Stop (TmplDat × ℤ) := do
  let key := hour * 60 + minute
  match ← search (fun r => r.key = key) t.recs t.rcnt.toNat 0 with
  | some i =>
    let r ← load t.recs i
    let recs ← store t.recs i
      { r with state := state, temp := floatOfInt temp, humid := floatOfInt humid }
    return ({ t with recs := recs }, 0)
  | none =>
    if t.rcnt + 1 > maxScheduleRecs then return (t, 1)
    let hrec : SRec := ⟨key, state, floatOfInt temp, floatOfInt humid⟩
    if t.rcnt = 0 then
      let recs ← store t.recs 0 hrec
      return ({ t with rcnt := t.rcnt + 1, recs := recs }, 0)
    match ← search (fun r => r.key > key) t.recs t.rcnt.toNat 0 with
    | some i =>
      let recs ← insertAt (fun _ => recBefore t) t.recs i t.rcnt.toNat hrec
      return ({ t with rcnt := t.rcnt + 1, recs := recs }, 0)
    | none =>
      let recs ← store t.recs t.rcnt hrec
      return ({ t with rcnt := t.rcnt + 1, recs := recs }, 0)

/-- `load_temps`, which lists the records for the prompt: the program gives up on a template with
too many. -/
def loadTemps (t : TmplDat) : Except Stop Unit :=
  if t.rcnt < 1 then .ok ()
  else if t.rcnt > maxScheduleRecs then .error .exit
  else .ok ()

/-- `print_temps`, without what it prints. -/
def printTemps (t : TmplDat) : Except Stop Unit := loadTemps t

/-! ## Well formed templates -/

/-- The records in use. -/
def TmplDat.live (t : TmplDat) : List SRec := front t.recs t.rcnt.toNat

/-- The record count is in range and the keys of the records in use increase. -/
structure TmplDat.Wf (t : TmplDat) : Prop where
  nonneg : 0 ≤ t.rcnt
  le_max : t.rcnt ≤ maxScheduleRecs
  increasing : Increasing SRec.key t.live

namespace TmplDat

variable {t : TmplDat}

theorem Wf.toNat_le (h : t.Wf) : t.rcnt.toNat ≤ maxScheduleRecs := by
  have := h.le_max
  omega

theorem Wf.toNat_lt (h : t.Wf) : t.rcnt.toNat < maxScheduleRecs + 1 :=
  Nat.lt_succ_of_le h.toNat_le

theorem Wf.length_live (h : t.Wf) : t.live.length = t.rcnt.toNat :=
  length_front _ (by have := h.toNat_le; omega)

theorem lt_of_lt_length_live {i : ℕ} (hi : i < t.live.length) : i < maxScheduleRecs + 1 := by
  simp only [live, front, List.length_take, Vector.length_toList] at hi
  omega

theorem getElem_live {i : ℕ} (hi : i < t.live.length) :
    t.live[i] = getElem t.recs i (lt_of_lt_length_live hi) :=
  getElem_front _ hi

theorem wf_of_rcnt_eq_zero (h : t.rcnt = 0) : t.Wf :=
  ⟨h.ge, by rw [h]; decide, by simp [live, front, h, Increasing]⟩

end TmplDat

/-! ## Deleting a record -/

variable {t : TmplDat}

theorem search_key (h : t.Wf) (p : SRec → Bool) :
    search p t.recs t.rcnt.toNat 0 = .ok (t.live.findIdx? p) :=
  search_zero p t.recs (by have := h.toNat_le; omega)

/-- Deleting removes the record with the key, if there is one, and otherwise fails and changes
nothing. -/
theorem delTmplRec_cases (h : t.Wf) (hour minute : ℤ) :
    ∃ t' ret, delTmplRec t hour minute = .ok (t', ret) ∧ t'.name = t.name ∧
      From (fun _ => False) t.recs t'.recs ∧
      ((ret = 0 ∧ ∃ (i : ℕ) (hi : i < t.live.length), t.live[i].key = hour * 60 + minute ∧
          t'.rcnt = t.rcnt - 1 ∧ t'.live = t.live.eraseIdx i) ∨
        (ret = 1 ∧ t' = t ∧ ∀ r ∈ t.live, r.key ≠ hour * 60 + minute)) := by
  have hlen := h.length_live
  have hmax := h.toNat_le
  have hself : From (fun _ => False) t.recs t.recs := fun j hj => .inr ⟨j, hj, rfl⟩
  by_cases hone : t.rcnt = 1 ∧ (t.recs.get 0).key = hour * 60 + minute
  · -- the only record
    have hl : t.live.length = 1 := by omega
    refine ⟨{ t with rcnt := 0 }, 0, ?_, rfl, hself,
      .inl ⟨rfl, 0, by omega, ?_, by simp only; omega, ?_⟩⟩
    · rw [delTmplRec, if_pos hone]
      rfl
    · rw [TmplDat.getElem_live]
      exact hone.2
    · obtain ⟨r, hr⟩ := List.length_eq_one_iff.1 hl
      simp [TmplDat.live, front] at hr ⊢
      simp [hr]
  · cases hf : t.live.findIdx? fun r => r.key = hour * 60 + minute with
    | none =>
      refine ⟨t, 1, ?_, rfl, hself, .inr ⟨rfl, rfl, by simpa [List.findIdx?_eq_none_iff] using hf⟩⟩
      simp only [delTmplRec, if_neg hone, search_key h, hf, bind, Except.bind]
      rfl
    | some i =>
      obtain ⟨hi, hkey, -⟩ := List.findIdx?_eq_some_iff_getElem.1 hf
      obtain ⟨recs, hs, hfront, hfrom⟩ := shiftDown_erase (fun _ => recBefore t) t.recs
        (i := i) (k := t.rcnt.toNat) (by omega) (by omega)
      refine ⟨{ t with rcnt := t.rcnt - 1, recs := recs }, 0, ?_, rfl, hfrom,
        .inl ⟨rfl, i, hi, by simpa using hkey, rfl, ?_⟩⟩
      · simp only [delTmplRec, if_neg hone, search_key h, hf, hs, bind, Except.bind]
        rfl
      · rw [← TmplDat.live] at hfront
        rw [← hfront]
        simp only [TmplDat.live]
        congr 1
        omega

theorem delTmplRec_wf (h : t.Wf) {hour minute ret : ℤ} {t' : TmplDat}
    (hd : delTmplRec t hour minute = .ok (t', ret)) : t'.Wf := by
  obtain ⟨-, -, hc⟩ := of_exists_ok (delTmplRec_cases h hour minute) hd
  rcases hc with ⟨-, i, hi, -, hr, hlive⟩ | ⟨-, rfl, -⟩
  · have h0 := h.nonneg
    have hmax := h.le_max
    have hlen := h.length_live
    exact ⟨by omega, by omega, hlive ▸ increasing_eraseIdx h.increasing i⟩
  · exact h

/-! ## Adding a record -/

/-- Where there is room for a new record, it ends up at its place, whichever branch stores it. -/
theorem addTmplRec_new (h : t.Wf) (hour minute state temp humid : ℤ)
    (hf : (t.live.findIdx? fun r => r.key = hour * 60 + minute) = none)
    (hroom : ¬ t.rcnt + 1 > maxScheduleRecs) :
    ∃ recs, addTmplRec t hour minute state temp humid =
        .ok ({ t with rcnt := t.rcnt + 1, recs := recs }, 0) ∧
      front recs (t.rcnt.toNat + 1) = t.live.insertIdx
        ((t.live.findIdx? fun r => hour * 60 + minute < r.key).getD t.live.length)
        ⟨hour * 60 + minute, state, floatOfInt temp, floatOfInt humid⟩ ∧
      From (· = ⟨hour * 60 + minute, state, floatOfInt temp, floatOfInt humid⟩) t.recs recs := by
  have hlen := h.length_live
  have hmax := h.toNat_le
  have hcast : ((t.rcnt.toNat : ℕ) : ℤ) = t.rcnt := Int.toNat_of_nonneg h.nonneg
  simp only [addTmplRec, search_key h, hf, bind, Except.bind, if_neg hroom]
  by_cases hzero : t.rcnt = 0
  · obtain ⟨recs, hs, hfront, hfrom⟩ := store_append t.recs (k := t.rcnt.toNat) (by omega)
      ⟨hour * 60 + minute, state, floatOfInt temp, floatOfInt humid⟩
    have hnil : t.live = [] := List.length_eq_zero_iff.1 (by omega)
    refine ⟨recs, ?_, ?_, hfrom⟩
    · rw [hcast, hzero] at hs
      simp only [if_pos hzero, hs]
      rfl
    · rw [hfront, ← TmplDat.live, hnil, hzero]
      rfl
  · simp only [if_neg hzero, gt_iff_lt]
    cases hg : t.live.findIdx? fun r => hour * 60 + minute < r.key with
    | some i =>
      obtain ⟨hi, -, -⟩ := List.findIdx?_eq_some_iff_getElem.1 hg
      obtain ⟨recs, hs, hfront, hfrom⟩ := insertAt_eq (fun _ => recBefore t) t.recs (i := i)
        (k := t.rcnt.toNat) (by omega) (by omega)
        ⟨hour * 60 + minute, state, floatOfInt temp, floatOfInt humid⟩
      refine ⟨recs, ?_, hfront, hfrom⟩
      simp only [hs]
      rfl
    | none =>
      obtain ⟨recs, hs, hfront, hfrom⟩ := store_append t.recs (k := t.rcnt.toNat) (by omega)
        ⟨hour * 60 + minute, state, floatOfInt temp, floatOfInt humid⟩
      rw [hcast] at hs
      refine ⟨recs, ?_, ?_, hfrom⟩
      · simp only [hs]
        rfl
      · rw [hfront, Option.getD_none, hlen]
        rfl

/-- Adding replaces the fields of the record with the key if there is one; otherwise it puts a
new record at its place, or fails and changes nothing when the template is full. -/
theorem addTmplRec_cases (h : t.Wf) (hour minute state temp humid : ℤ) :
    ∃ t' ret, addTmplRec t hour minute state temp humid = .ok (t', ret) ∧ t'.name = t.name ∧
      From (fun r => r.state = state) t.recs t'.recs ∧
      ((ret = 0 ∧ ∃ (i : ℕ) (hi : i < t.live.length), t.live[i].key = hour * 60 + minute ∧
          t'.rcnt = t.rcnt ∧ t'.live = t.live.set i
            ⟨hour * 60 + minute, state, floatOfInt temp, floatOfInt humid⟩) ∨
        ((∀ r ∈ t.live, r.key ≠ hour * 60 + minute) ∧
          ((ret = 1 ∧ t' = t ∧ t.rcnt = maxScheduleRecs) ∨
            (ret = 0 ∧ t'.rcnt = t.rcnt + 1 ∧ t.rcnt < maxScheduleRecs ∧ ∃ i ≤ t.live.length,
              (∀ (j : ℕ) (hj : j < t.live.length), j < i → t.live[j].key < hour * 60 + minute) ∧
              (∀ (j : ℕ) (hj : j < t.live.length), i ≤ j → hour * 60 + minute < t.live[j].key) ∧
              t'.live = t.live.insertIdx i
                ⟨hour * 60 + minute, state, floatOfInt temp, floatOfInt humid⟩)))) := by
  have hlen := h.length_live
  have hmax := h.toNat_le
  have h0 := h.nonneg
  cases hf : t.live.findIdx? fun r => r.key = hour * 60 + minute with
  | some i =>
    obtain ⟨hi, hkey, -⟩ := List.findIdx?_eq_some_iff_getElem.1 hf
    have hkey' : t.live[i].key = hour * 60 + minute := by simpa using hkey
    have hload : load t.recs i = .ok t.live[i] := by
      rw [load_natCast t.recs (by omega : i < _), TmplDat.getElem_live]
    obtain ⟨recs, hs, hfront, hfrom⟩ := store_set t.recs (i := i) (k := t.rcnt.toNat) (by omega)
      (by omega) ⟨hour * 60 + minute, state, floatOfInt temp, floatOfInt humid⟩
    refine ⟨{ t with recs := recs }, 0, ?_, rfl, fun j hj => (hfrom j hj).imp_left fun e => ?_,
      .inl ⟨rfl, i, hi, hkey', rfl, hfront⟩⟩
    · simp only [addTmplRec, search_key h, hf, hload, bind, Except.bind, hkey', hs]
      rfl
    · rw [e]
  | none =>
    have hnone : ∀ r ∈ t.live, r.key ≠ hour * 60 + minute := by
      simpa [List.findIdx?_eq_none_iff] using hf
    by_cases hfull : t.rcnt + 1 > maxScheduleRecs
    · -- no room
      refine ⟨t, 1, ?_, rfl, fun j hj => .inr ⟨j, hj, rfl⟩,
        .inr ⟨hnone, .inl ⟨rfl, rfl, by have := h.le_max; omega⟩⟩⟩
      simp only [addTmplRec, search_key h, hf, bind, Except.bind, if_pos hfull]
      rfl
    · obtain ⟨hplace, hlt, hgt⟩ := place_of_findIdx? h.increasing hnone
      obtain ⟨recs, hadd, hfront, hfrom⟩ :=
        addTmplRec_new h hour minute state temp humid hf hfull
      refine ⟨_, _, hadd, rfl, fun j hj => (hfrom j hj).imp_left fun e => by rw [e], .inr ⟨hnone,
        .inr ⟨rfl, rfl, by omega, _, hplace, hlt, hgt, ?_⟩⟩⟩
      rw [← hfront]
      simp only [TmplDat.live]
      congr 1
      omega

theorem addTmplRec_wf (h : t.Wf) {hour minute state temp humid ret : ℤ} {t' : TmplDat}
    (ha : addTmplRec t hour minute state temp humid = .ok (t', ret)) : t'.Wf := by
  obtain ⟨-, -, hc⟩ := of_exists_ok (addTmplRec_cases h hour minute state temp humid) ha
  have h0 := h.nonneg
  have hmax := h.le_max
  rcases hc with ⟨-, i, hi, hkey, hr, hlive⟩ | ⟨-, ⟨-, rfl, -⟩ | ⟨-, hr, hlt, i, hi, hl, hg, hlive⟩⟩
  · exact ⟨by omega, by omega, hlive ▸ increasing_set h.increasing hi hkey.symm⟩
  · exact h
  · exact ⟨by omega, by omega, hlive ▸ increasing_insertIdx h.increasing hi hl hg⟩

end PconTng
